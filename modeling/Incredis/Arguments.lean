import Incredis.Hex
import Mathlib.Data.Int.DivMod
import Mathlib.Algebra.Ring.Int.Defs

/-! The arguments of `Batch::run` on their way to `redisAsyncCommandArgv`, which is given
one array of pointers and one of lengths. Some of the pointers go into objects that
`MakeCharInfo` makes for the call. -/
namespace Incredis.Arguments

abbrev Bytes := List UInt8

inductive ByteOrder
  | littleEndian
  | bigEndian
deriving DecidableEq, Repr

/-- `htobe` is duckhandy's, for numbers of eight bytes. -/
structure Host where
  byteOrder : ByteOrder
  htobe : Nat → Nat

namespace Host

/-- The bytes of a number in memory. -/
def store (host : Host) (word : Nat) : Bytes :=
  match host.byteOrder with
  | .littleEndian => Hex.lowBytes 8 word
  | .bigEndian => (Hex.lowBytes 8 word).reverse

def Correct (host : Host) : Prop :=
  ∀ word < 2 ^ 64, host.htobe word =
    match host.byteOrder with
    | .littleEndian => Hex.byteSwap 8 word
    | .bigEndian => word

end Host

/-- A `boost::string_view` into some buffer. -/
structure View where
  buffer : Bytes
  offset : Nat
  size : Nat
  inside : offset + size ≤ buffer.length

/-- An argument of one of the types that `MakeCharInfo` is specialised for. -/
inductive Arg
  | string (data : Bytes)
  | stringView (view : View)
  | char (data : UInt8)
  | charArray (data : Bytes) (some : data ≠ [])
  | redisInt (value : Int) (fits : -2 ^ 63 ≤ value ∧ value < 2 ^ 63)

/-- A name that is given as a `const char*`. -/
abbrev CString := { bytes : Bytes // 0 ∉ bytes }

/-- What is alive while `run_pvt` runs: what the caller passed, the command coming first, and
the `MakeCharInfo` of each argument. -/
inductive Object
  | argument (number : Nat)
  | info (number : Nat)
deriving DecidableEq, Repr

structure Pointer where
  object : Object
  offset : Nat
deriving DecidableEq, Repr

/-- Two's complement -/
def wordOf (value : Int) : Nat := (value % 2 ^ 64).toNat

namespace Arg

/-- The memory that the caller holds. A string has a NUL behind it. -/
def buffer (host : Host) : Arg → Bytes
  | string data => data ++ [0]
  | stringView view => view.buffer
  | char data => [data]
  | charArray data _ => data
  | redisInt value _ => host.store (wordOf value)

/-- What a `MakeCharInfo` keeps by value; the others keep a reference. -/
def kept (host : Host) : Arg → Bytes
  | char data => [data]
  | redisInt value _ => host.store (host.htobe (wordOf value))
  | _ => []

/-- `MakeCharInfo::data()` -/
def data (number : Nat) : Arg → Pointer
  | string _ => ⟨.argument number, 0⟩
  | stringView view => ⟨.argument number, view.offset⟩
  | char _ => ⟨.info number, 0⟩
  | charArray _ _ => ⟨.argument number, 0⟩
  | redisInt _ _ => ⟨.info number, 0⟩

/-- `MakeCharInfo::size()` -/
def size : Arg → Nat
  | string data => data.length
  | stringView view => view.size
  | char _ => 1
  | charArray data _ => data.length - 1
  | redisInt _ _ => 8

end Arg

/-- `std::strlen` -/
def strlen (buffer : Bytes) : Nat := (buffer.takeWhile (· ≠ 0)).length

section
variable (host : Host) (parCommand : CString) (parArgs : List Arg)

/-- Nothing else may be read. -/
def memory : Object → Option Bytes
  | .argument 0 => some (parCommand.val ++ [0])
  | .argument (number + 1) => parArgs[number]?.map (Arg.buffer host)
  | .info 0 => none
  | .info (number + 1) => parArgs[number]?.map (Arg.kept host)

/-- The two arrays of `Batch::run`. -/
def argv : List Pointer :=
  ⟨.argument 0, 0⟩ :: parArgs.mapIdx fun number arg => arg.data (number + 1)

def lengths : List Nat := strlen (parCommand.val ++ [0]) :: parArgs.map Arg.size

/-- The bytes from a pointer on, if they are all there. -/
def read (length : Nat) (pointer : Pointer) : Option Bytes := do
  let bytes ← memory host parCommand parArgs pointer.object
  if pointer.offset + length ≤ bytes.length then
    some ((bytes.drop pointer.offset).take length)
  else none

/-- What `redisAsyncCommandArgv` reads for one of the arguments. -/
def readAt (number : Nat) : Option Bytes := do
  read host parCommand parArgs (← (lengths parCommand parArgs)[number]?) (← (argv parArgs)[number]?)

end

/-- What an argument is to be on the wire. -/
def Arg.content : Arg → Bytes
  | string data => data
  | stringView view => (view.buffer.drop view.offset).take view.size
  | char data => [data]
  | charArray data _ => data.dropLast
  | redisInt value _ => (Hex.lowBytes 8 (wordOf value)).reverse

/-- A signed number of eight bytes, the highest first. -/
def bigEndianInt (bytes : Bytes) : Int := Int.bmod (Hex.littleEndian bytes.reverse : Nat) (2 ^ 64)

section Words

theorem wordOf_lt (value : Int) : wordOf value < 2 ^ 64 := by
  rw [wordOf]
  omega

/-- The bytes of a word in memory, once `htobe` has had it. -/
theorem stored_htobe {host : Host} (correct : host.Correct) {word : Nat} (fits : word < 2 ^ 64) :
    host.store (host.htobe word) = (Hex.lowBytes 8 word).reverse := by
  rw [correct word fits, Host.store]
  cases host.byteOrder with
  | bigEndian => rfl
  | littleEndian =>
    have same := Hex.lowBytes_littleEndian (Hex.lowBytes 8 word).reverse
    rw [List.length_reverse, Hex.length_lowBytes] at same
    simp only [Hex.byteSwap]
    exact same

theorem bigEndianInt_wordOf {value : Int} (fits : -2 ^ 63 ≤ value ∧ value < 2 ^ 63) :
    bigEndianInt (Hex.lowBytes 8 (wordOf value)).reverse = value := by
  have word : ((Hex.littleEndian (Hex.lowBytes 8 (wordOf value)) : Nat) : Int) =
      value % (2 ^ 64 : Nat) := by
    rw [Hex.littleEndian_lowBytes]
    simp only [wordOf]
    omega
  unfold bigEndianInt
  rw [List.reverse_reverse, word, Int.emod_bmod]
  apply Int.bmod_eq_of_le <;> omega

end Words

section Places
variable (host : Host) (parCommand : CString) (parArgs : List Arg)

theorem strlen_cString : strlen (parCommand.val ++ [0]) = parCommand.val.length := by
  have stops : (parCommand.val ++ [0]).takeWhile (· ≠ 0) = parCommand.val := by
    rw [List.takeWhile_append_of_pos]
    · simp
    · intro byte member
      have apart : byte ≠ 0 := fun zero => parCommand.property (zero ▸ member)
      simpa using apart
  rw [strlen, stops]

theorem read_bytes {pointer : Pointer} {length : Nat} (before content behind : Bytes)
    (there : memory host parCommand parArgs pointer.object = some (before ++ content ++ behind))
    (offset : pointer.offset = before.length) (size : length = content.length) :
    read host parCommand parArgs length pointer = some content := by
  have inside : pointer.offset + length ≤ (before ++ content ++ behind).length := by
    simp only [List.length_append, offset, size]
    omega
  simp only [read, there, Option.bind_eq_bind, Option.bind_some, if_pos inside]
  rw [offset, size, List.append_assoc, List.drop_left, List.take_left]

/-- The bytes of an argument inside the object that its pointer leads to. -/
theorem read_arg (correct : host.Correct) {number : Nat} {arg : Arg} (given : parArgs[number]? = some arg) :
    read host parCommand parArgs arg.size (arg.data (number + 1)) = some arg.content := by
  have argument : memory host parCommand parArgs (.argument (number + 1)) =
      some (arg.buffer host) := by
    simp only [memory, given, Option.map_some]
  have info : memory host parCommand parArgs (.info (number + 1)) = some (arg.kept host) := by
    simp only [memory, given, Option.map_some]
  cases arg with
  | string data => exact read_bytes _ _ _ [] data [0] argument rfl rfl
  | stringView view =>
    have parts : view.buffer = view.buffer.take view.offset ++
        (view.buffer.drop view.offset).take view.size ++
        (view.buffer.drop view.offset).drop view.size := by
      simp only [List.append_assoc, List.take_append_drop]
    have inside := view.inside
    apply read_bytes _ _ _ (view.buffer.take view.offset) _ _ (argument.trans (congrArg some parts))
    · simp only [Arg.data, List.length_take]
      omega
    · simp only [Arg.content, Arg.size, List.length_take, List.length_drop]
      omega
  | char data => exact read_bytes _ _ _ [] [data] [] info rfl rfl
  | charArray data some =>
    have parts := List.dropLast_concat_getLast some
    apply read_bytes _ _ _ [] data.dropLast [data.getLast some]
      (argument.trans (congrArg Option.some parts.symm)) rfl
    exact List.length_dropLast.symm
  | redisInt value fits =>
    have stored := stored_htobe correct (wordOf_lt value)
    apply read_bytes _ _ _ [] (Hex.lowBytes 8 (wordOf value)).reverse []
    · rw [List.append_nil, List.nil_append, ← stored]
      exact info
    · rfl
    · rw [List.length_reverse, Hex.length_lowBytes]
      rfl

/-- The command and the arguments, as `redisAsyncCommandArgv` is to send them. -/
def contents : List Bytes := parCommand.val :: parArgs.map Arg.content

theorem readAt_eq (correct : host.Correct) (number : Nat) :
    readAt host parCommand parArgs number = (contents parCommand parArgs)[number]? := by
  cases number with
  | zero =>
    have command : read host parCommand parArgs (strlen (parCommand.val ++ [0]))
        ⟨.argument 0, 0⟩ = some parCommand.val :=
      read_bytes host parCommand parArgs [] parCommand.val [0] rfl rfl (strlen_cString parCommand)
    exact command
  | succ number =>
    simp only [readAt, lengths, argv, contents, List.getElem?_cons_succ, List.getElem?_map,
      List.getElem?_mapIdx]
    cases given : parArgs[number]? with
    | none => rfl
    | some arg => exact read_arg host parCommand parArgs correct given

end Places

/-- What is sent for a call, on either kind of host. -/
theorem run_sends (host : Host) (correct : host.Correct) (parCommand : CString)
    (parArgs : List Arg) :
    (argv parArgs).length = parArgs.length + 1 ∧
      (lengths parCommand parArgs).length = parArgs.length + 1 ∧
      (∀ number, readAt host parCommand parArgs number = (contents parCommand parArgs)[number]?) ∧
      ∀ number value fits, parArgs[number]? = some (.redisInt value fits) →
        (readAt host parCommand parArgs (number + 1)).map bigEndianInt = some value := by
  refine ⟨?_, ?_, readAt_eq host parCommand parArgs correct, ?_⟩
  · rw [argv, List.length_cons, List.length_mapIdx]
  · rw [lengths, List.length_cons, List.length_map]
  · intro number value fits given
    rw [readAt_eq host parCommand parArgs correct, contents, List.getElem?_cons_succ,
      List.getElem?_map, given]
    exact congrArg some (bigEndianInt_wordOf fits)

def littleEndianHost : Host := ⟨.littleEndian, Hex.byteSwap 8⟩

/-- `set`, with a member that has a NUL in it and a negative number -/
theorem run_sends_set :
    (readAt littleEndianHost ⟨[115, 101, 116], by decide⟩
        [.string [97, 0, 98], .redisInt (-2) (by decide)] 1 = some [97, 0, 98]) ∧
      (readAt littleEndianHost ⟨[115, 101, 116], by decide⟩
        [.string [97, 0, 98], .redisInt (-2) (by decide)] 2).map bigEndianInt = some (-2) := by
  have sent := run_sends littleEndianHost (fun _ _ => rfl) ⟨[115, 101, 116], by decide⟩
    [.string [97, 0, 98], .redisInt (-2) (by decide)]
  exact ⟨sent.2.2.1 1, sent.2.2.2 1 (-2) (by decide) rfl⟩

end Incredis.Arguments
