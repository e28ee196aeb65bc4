import Incredis.Batch.Agreement
import Incredis.Commands

/-! The values of the synchronous commands. Of every reply that a server may give a command
makes one value or none, and the assertions of a build say of which it comes to make any. -/
namespace Incredis.Sync
variable {Double : Type} {asserts : Bool}

/-- How a command goes on with its reply. -/
inductive Kind
  | string
  | list
  | number
  /-- Is the status `OK`? -/
  | status
  /-- Is the integer 1? -/
  | flag

def SyncCommand.kind : SyncCommand Double → Kind
  | .hget .. | .srandmember .. | .get .. => .string
  | .hmget .. | .srandmemberCount .. | .smembers .. | .zrangebyscore .. => .list
  | .hincrby .. | .dbsize | .del .. | .incr .. => .number
  | .hmset .. | .scriptFlush | .flushdb | .set .. => .status
  | .expire .. => .flag

namespace Kind

def finish (asserts : Bool) : Kind → Reply → Except Exception Value
  | .string, parReply => return .optString (← optionalString asserts parReply)
  | .list, parReply => return .optStringList (← optionalStringList asserts parReply)
  | .number, parReply => return .integer (← getInteger asserts parReply)
  | .status, parReply => return .bool (isOk (← getStatus asserts parReply))
  | .flag, parReply => return .bool ((← getInteger asserts parReply) = 1)

/-- A string or nothing. -/
def readString : RedisReply → Option OptString
  | .string str => some (some str)
  | .nil => some none
  | _ => none

/-- A slot that was never written holds a zero. -/
def unwritten : Kind → Option Value
  | .number => some (.integer 0)
  | .flag => some (.bool false)
  | _ => none

/-- The value that a reply stands for, if it is one to such a command at all. -/
def read : Kind → RedisReply → Option Value
  | .string, raw => (readString raw).map .optString
  | .list, .nil => some (.optStringList none)
  | .list, .array element =>
    (element.mapM readString).map fun values => .optStringList (some values)
  | .number, .integer n => some (.integer n)
  | .status, .status str => some (.bool (str = "OK"))
  | .status, .nil => some (.bool false)
  | .flag, .integer n => some (.bool (n = 1))
  | kind, .other _ => kind.unwritten
  | _, _ => none

def readAnswer (kind : Kind) : Option RedisReply → Option Value
  | some raw => kind.read raw
  | none => kind.unwritten

end Kind

section Read

theorem toOption_bind (result : Except Exception α) (rest : α → Except Exception β) :
    (result >>= rest).toOption = result.toOption.bind fun value => (rest value).toOption := by
  cases result <;> rfl

theorem ok_iff_toOption {result : Except Exception α} {value : α} :
    result = .ok value ↔ result.toOption = some value := by
  cases result with
  | ok returned =>
    exact ⟨congrArg Except.toOption, fun same => congrArg Except.ok (Option.some.inj same)⟩
  | error thrown => exact ⟨fun impossible => by contradiction, fun impossible => by contradiction⟩

theorem optionalString_read (raw : RedisReply) :
    (optionalString asserts (makeRedisReplyType raw)).toOption = Kind.readString raw := by
  cases asserts <;> cases raw <;> rfl

theorem optionalStrings_read (element : List RedisReply) :
    (optionalStrings asserts (makeRedisReplyTypes element)).toOption =
      element.mapM Kind.readString := by
  induction element with
  | nil => rfl
  | cons head rest ih =>
    have same : (optionalString asserts (makeRedisReplyType head)).toOption = _ :=
      optionalString_read head
    rw [makeRedisReplyTypes, optionalStrings, List.mapM_cons, ← ih, ← same, toOption_bind]
    cases (optionalString asserts (makeRedisReplyType head)).toOption with
    | none => rfl
    | some first =>
      simp only [Option.bind_some, toOption_bind]
      rfl

/-- The reply of the library is read as the one of the server is. -/
theorem finish_read (kind : Kind) (raw : RedisReply) :
    (kind.finish asserts (makeRedisReplyType raw)).toOption = kind.read raw := by
  cases kind with
  | string =>
    rw [Kind.finish, toOption_bind, optionalString_read]
    cases raw <;> rfl
  | list =>
    cases raw with
    | array element =>
      have list : optionalStringList asserts (makeRedisReplyType (.array element)) =
          optionalStrings asserts (makeRedisReplyTypes element) >>= fun values =>
            return some values := by cases asserts <;> rfl
      rw [Kind.finish, list, toOption_bind, toOption_bind, optionalStrings_read, Kind.read]
      cases element.mapM Kind.readString <;> rfl
    | _ => cases asserts <;> rfl
  | number | flag => cases asserts <;> cases raw <;> rfl
  | status =>
    cases raw with
    | status str =>
      have same : isOk str = decide (str = "OK") := by simp [isOk, eq_comm]
      rw [Kind.read, ← same]
      cases asserts <;> rfl
    | _ => cases asserts <;> rfl

theorem finish_readAnswer (kind : Kind) (answer : Option RedisReply) :
    (kind.finish asserts (decoded answer)).toOption = kind.readAnswer answer := by
  cases answer with
  | some raw => exact finish_read kind raw
  | none => cases kind <;> cases asserts <;> rfl

theorem mapM_none {f : α → Option β} {items : List α} {item : α} (member : item ∈ items)
    (fails : f item = none) : items.mapM f = none := by
  induction items with
  | nil => exact absurd member List.not_mem_nil
  | cons head rest ih =>
    rw [List.mapM_cons]
    rcases List.mem_cons.mp member with rfl | later
    · rw [fails]
      rfl
    · rw [ih later]
      cases f head <;> rfl

/-- No value comes of a reply with an error in it. -/
theorem read_hasError {raw : RedisReply} (hasError : raw.HasError) (kind : Kind) :
    kind.read raw = none := by
  cases hasError with
  | error str => cases kind <;> rfl
  | @array element rep member inside =>
    cases kind with
    | list =>
      have missing : Kind.readString rep = none := by cases inside <;> rfl
      rw [Kind.read, mapM_none member missing]
      rfl
    | _ => rfl

end Read

/-! The calls. -/

namespace SyncCommand

theorem call_runs (r : IncRedis Double) {command : SyncCommand Double}
    (runs : ¬ command.ReadsBatch) :
    command.call r = r.run (command.request r) >>= command.kind.finish r.asserts := by
  cases command with
  | zrangebyscore | set => exact absurd trivial runs
  | hmset | scriptFlush | flushdb | expire =>
    simp only [call, IncRedis.hmset, IncRedis.scriptFlush, IncRedis.flushdb, IncRedis.expire,
      bind_assoc, pure_bind]
    rfl
  | _ => exact bind_assoc ..

theorem call_reads (r : IncRedis Double) {command : SyncCommand Double}
    (reads : command.ReadsBatch) :
    command.call r = command.kind.finish r.asserts (r.batchReply (command.request r)) := by
  cases command with
  | zrangebyscore => rfl
  | set =>
    simp only [call, IncRedis.set, bind_assoc, pure_bind]
    rfl
  | _ => exact reads.elim

theorem request_later (r : IncRedis Double) (requests : List Request) :
    SyncCommand.request { r with requests } = SyncCommand.request r := by
  funext command
  cases command <;> rfl

end SyncCommand

theorem commandRun_read (kind : Kind) (answer : Option RedisReply) :
    (commandRun answer >>= kind.finish asserts).toOption = kind.readAnswer answer := by
  cases ran : commandRun answer with
  | ok reply =>
    obtain ⟨_, rfl⟩ := Batch.commandRun_ok_iff.mp ran
    exact finish_readAnswer kind answer
  | error thrown =>
    cases answer with
    | none =>
      have ok : commandRun none = .ok default := rfl
      rw [ok] at ran
      contradiction
    | some raw =>
      have failing : (makeRedisReplyType raw).errors ≠ [] := Batch.commandRun_failed ran
      rw [makeRedisReplyType_errors] at failing
      exact (read_hasError ((errors_ne_nil raw).mp failing) kind).symm

/-- A command that has its value has no error to report. -/
theorem finish_clean {kind : Kind} {answer : Option RedisReply} {value : Value}
    (finished : (kind.finish asserts (decoded answer)).toOption = some value) :
    (decoded answer).errors = [] := by
  rw [finish_readAnswer] at finished
  cases answer with
  | none => rfl
  | some raw =>
    by_contra failing
    rw [show decoded (some raw) = makeRedisReplyType raw from rfl, makeRedisReplyType_errors] at failing
    rw [Kind.readAnswer, read_hasError ((errors_ne_nil raw).mp failing)] at finished
    contradiction

theorem call_toOption (r : IncRedis Double) (command : SyncCommand Double) :
    (command.call r).toOption =
      command.kind.readAnswer (r.server (r.requests ++ [command.request r])) := by
  by_cases reads : command.ReadsBatch
  · rw [SyncCommand.call_reads r reads]
    exact finish_readAnswer _ _
  · rw [SyncCommand.call_runs r reads]
    exact commandRun_read _ _

namespace SyncCommand

/-- `call` with the assertions of the callback, which come first: they stop the program on the
poll thread while the call waits for its reply. -/
def returned (r : IncRedis Double) (command : SyncCommand Double) : Except Exception Value := do
  cassert r.asserts ((r.server (r.requests ++ [command.request r])).any RedisReply.recognised)
  command.call r

end SyncCommand

/-- A command returns a value if and only if the answer of the server stands for it and passes the
assertions of the build. -/
theorem call_ok_iff (r : IncRedis Double) (command : SyncCommand Double) (value : Value) :
    command.returned r = .ok value ↔
      (r.asserts = true →
        (r.server (r.requests ++ [command.request r])).any RedisReply.recognised = true) ∧
      command.kind.readAnswer (r.server (r.requests ++ [command.request r])) = some value := by
  rw [← call_toOption, ← ok_iff_toOption, SyncCommand.returned, cassert]
  split
  case isTrue stopped =>
    constructor
    · intro impossible
      contradiction
    · rintro ⟨passes, _⟩
      exact absurd (passes stopped.1) stopped.2
  case isFalse passed =>
    exact ⟨fun ok => ⟨fun on => by_contra fun fails => passed ⟨on, fails⟩, ok⟩, And.right⟩

/-- Nobody answered: the program stops, or `DBSIZE` is nothing. -/
example (r : IncRedis Double) (lost : r.server (r.requests ++ [["DBSIZE"]]) = none) :
    SyncCommand.returned r .dbsize = if r.asserts then .error .assertion else .ok (.integer 0) := by
  have asked : SyncCommand.request r .dbsize = ["DBSIZE"] := rfl
  rw [SyncCommand.returned, asked, lost, SyncCommand.call, IncRedis.dbsize, IncRedis.run, lost]
  cases r.asserts <;> rfl

end Incredis.Sync
