import Incredis.Command
import Incredis.ErrorText
import Incredis.ScoreRange

/-! The synchronous commands of `IncRedis`. Most of them go through `Command::run`, which
throws on an error reply; two read the reply of a batch of their own. -/
namespace Incredis.Sync

section
variable (asserts : Bool)

def isOk (status : String) : Bool := "OK" = status

abbrev OptString := Option String
abbrev OptStringList := Option (List OptString)

def optionalString (parReply : Reply) : Except Exception OptString := do
  cassert asserts (parReply.which = .nil ∨ parReply.which = .string)
  if parReply.which = .nil then return none
  else return some (← getString asserts parReply)

/-- The loop of `optional_string_list`. -/
def optionalStrings : List Reply → Except Exception (List OptString)
  | [] => return []
  | rep :: replies => do
    let first ← optionalString asserts rep
    let rest ← optionalStrings replies
    return first :: rest

def optionalStringList (parReply : Reply) : Except Exception OptStringList := do
  cassert asserts (parReply.which = .nil ∨ parReply.which = .array)
  if parReply.which = .nil then return none
  else
    let replies ← getArray asserts parReply
    return some (← optionalStrings asserts replies)

end

/-- What the commands run on. `intToAryDec` and `makeBoundary` make texts of integers and of
the bounds of a range. -/
structure IncRedis (Double : Type) where
  server : Server
  asserts : Bool
  intToAryDec : Int → String
  makeBoundary : Double → Bool → String
  requests : List Request

namespace IncRedis
variable {Double : Type} (r : IncRedis Double)

/-- `m_command.run`, without what the callback asserts of the reply. -/
def run (request : Request) : Except Exception Reply := commandRun (r.server (r.requests ++ [request]))

/-- The only reply of a batch that is not asked whether it failed, without those assertions too. -/
def batchReply (request : Request) : Reply := decoded (r.server (r.requests ++ [request]))

def hget (parKey parField : String) : Except Exception OptString := do
  optionalString r.asserts (← r.run ["HGET", parKey, parField])

/-- There is at least one field. -/
def hmget (parKey parArg : String) (parArgs : List String) : Except Exception OptStringList := do
  optionalStringList r.asserts (← r.run ("HMGET" :: parKey :: parArg :: parArgs))

/-- There is at least one field, each with its value. -/
def hmset (parKey : String) (parArg : String × String) (parArgs : List (String × String)) :
    Except Exception Bool := do
  let ret ← getStatus r.asserts (← r.run ("HMSET" :: parKey ::
    (parArg :: parArgs).flatMap fun arg => [arg.1, arg.2]))
  return isOk ret

def hincrby (parKey parField : String) (parInc : Int) : Except Exception Int := do
  getInteger r.asserts (← r.run ["HINCRBY", parKey, parField, r.intToAryDec parInc])

def srandmemberCount (parKey : String) (parCount : Int) : Except Exception OptStringList := do
  optionalStringList r.asserts (← r.run ["SRANDMEMBER", parKey, r.intToAryDec parCount])

def srandmember (parKey : String) : Except Exception OptString := do
  optionalString r.asserts (← r.run ["SRANDMEMBER", parKey])

def smembers (parKey : String) : Except Exception OptStringList := do
  optionalStringList r.asserts (← r.run ["SMEMBERS", parKey])

/-- The request of `IncRedisBatch::zrangebyscore` -/
def zrangebyscoreRequest (parKey : String) (parMin : Double) (parMinIncl : Bool) (parMax : Double)
    (parMaxIncl parWithScores : Bool) : Request :=
  let lowerBound := r.makeBoundary parMin (!parMinIncl)
  let upperBound := r.makeBoundary parMax (!parMaxIncl)
  if parWithScores then ["ZRANGEBYSCORE", parKey, lowerBound, upperBound, "WITHSCORES"]
  else ["ZRANGEBYSCORE", parKey, lowerBound, upperBound]

def zrangebyscore (parKey : String) (parMin : Double) (parMinIncl : Bool) (parMax : Double)
    (parMaxIncl parWithScores : Bool) : Except Exception OptStringList :=
  optionalStringList r.asserts
    (r.batchReply (r.zrangebyscoreRequest parKey parMin parMinIncl parMax parMaxIncl parWithScores))

def scriptFlush : Except Exception Bool := do
  let ret ← getStatus r.asserts (← r.run ["SCRIPT", "FLUSH"])
  return isOk ret

def flushdb : Except Exception Bool := do
  let ret ← getStatus r.asserts (← r.run ["FLUSHDB"])
  return isOk ret

def dbsize : Except Exception Int := do
  getInteger r.asserts (← r.run ["DBSIZE"])

def expire (parKey : String) (parTTL : Int) : Except Exception Bool := do
  let ret ← getInteger r.asserts (← r.run ["EXPIRE", parKey, r.intToAryDec parTTL])
  return ret = 1

/-- There is at least one key. -/
def del (parArg : String) (parArgs : List String) : Except Exception Int := do
  getInteger r.asserts (← r.run ("DEL" :: parArg :: parArgs))

def get (parKey : String) : Except Exception OptString := do
  optionalString r.asserts (← r.run ["GET", parKey])

def set (parKey parField : String) : Except Exception Bool := do
  let ret ← getStatus r.asserts (r.batchReply ["SET", parKey, parField])
  return isOk ret

def incr (parKey : String) : Except Exception Int := do
  getInteger r.asserts (← r.run ["INCR", parKey])

end IncRedis

/-- A call of one of the commands. -/
inductive SyncCommand (Double : Type)
  | hget (parKey parField : String)
  | hmget (parKey parArg : String) (parArgs : List String)
  | hmset (parKey : String) (parArg : String × String) (parArgs : List (String × String))
  | hincrby (parKey parField : String) (parInc : Int)
  | srandmemberCount (parKey : String) (parCount : Int)
  | srandmember (parKey : String)
  | smembers (parKey : String)
  | zrangebyscore (parKey : String) (parMin : Double) (parMinIncl : Bool) (parMax : Double)
    (parMaxIncl parWithScores : Bool)
  | scriptFlush
  | flushdb
  | dbsize
  | expire (parKey : String) (parTTL : Int)
  | del (parArg : String) (parArgs : List String)
  | get (parKey : String)
  | set (parKey parField : String)
  | incr (parKey : String)

inductive Value
  | optString (value : OptString)
  | optStringList (value : OptStringList)
  | integer (value : Int)
  | bool (value : Bool)

namespace SyncCommand
variable {Double : Type}

/-- The command reads the reply of its own batch. -/
def ReadsBatch : SyncCommand Double → Prop
  | .zrangebyscore .. => True
  | .set .. => True
  | _ => False

def request (r : IncRedis Double) : SyncCommand Double → Request
  | .hget parKey parField => ["HGET", parKey, parField]
  | .hmget parKey parArg parArgs => "HMGET" :: parKey :: parArg :: parArgs
  | .hmset parKey parArg parArgs =>
    "HMSET" :: parKey :: (parArg :: parArgs).flatMap fun arg => [arg.1, arg.2]
  | .hincrby parKey parField parInc => ["HINCRBY", parKey, parField, r.intToAryDec parInc]
  | .srandmemberCount parKey parCount => ["SRANDMEMBER", parKey, r.intToAryDec parCount]
  | .srandmember parKey => ["SRANDMEMBER", parKey]
  | .smembers parKey => ["SMEMBERS", parKey]
  | .zrangebyscore parKey parMin parMinIncl parMax parMaxIncl parWithScores =>
    r.zrangebyscoreRequest parKey parMin parMinIncl parMax parMaxIncl parWithScores
  | .scriptFlush => ["SCRIPT", "FLUSH"]
  | .flushdb => ["FLUSHDB"]
  | .dbsize => ["DBSIZE"]
  | .expire parKey parTTL => ["EXPIRE", parKey, r.intToAryDec parTTL]
  | .del parArg parArgs => "DEL" :: parArg :: parArgs
  | .get parKey => ["GET", parKey]
  | .set parKey parField => ["SET", parKey, parField]
  | .incr parKey => ["INCR", parKey]

def call (r : IncRedis Double) : SyncCommand Double → Except Exception Value
  | .hget parKey parField => return .optString (← r.hget parKey parField)
  | .hmget parKey parArg parArgs => return .optStringList (← r.hmget parKey parArg parArgs)
  | .hmset parKey parArg parArgs => return .bool (← r.hmset parKey parArg parArgs)
  | .hincrby parKey parField parInc => return .integer (← r.hincrby parKey parField parInc)
  | .srandmemberCount parKey parCount => return .optStringList (← r.srandmemberCount parKey parCount)
  | .srandmember parKey => return .optString (← r.srandmember parKey)
  | .smembers parKey => return .optStringList (← r.smembers parKey)
  | .zrangebyscore parKey parMin parMinIncl parMax parMaxIncl parWithScores =>
    return .optStringList
      (← r.zrangebyscore parKey parMin parMinIncl parMax parMaxIncl parWithScores)
  | .scriptFlush => return .bool (← r.scriptFlush)
  | .flushdb => return .bool (← r.flushdb)
  | .dbsize => return .integer (← r.dbsize)
  | .expire parKey parTTL => return .bool (← r.expire parKey parTTL)
  | .del parArg parArgs => return .integer (← r.del parArg parArgs)
  | .get parKey => return .optString (← r.get parKey)
  | .set parKey parField => return .bool (← r.set parKey parField)
  | .incr parKey => return .integer (← r.incr parKey)

/-- The others hand their request to `Command::run` first. -/
theorem call_eq (r : IncRedis Double) {command : SyncCommand Double} (runs : ¬ command.ReadsBatch) :
    ∃ finish, command.call r = r.run (command.request r) >>= finish := by
  cases command with
  | zrangebyscore | set => exact absurd trivial runs
  | _ => exact ⟨_, bind_assoc ..⟩

end SyncCommand

/-- The call throws what `throw_if_failed` throws for this reply, and the first error is the
first that it tells. -/
def Reports (raw : RedisReply) (result : Except Exception α) : Prop :=
  ∃ what first tail, throwIfFailed [makeRedisReplyType raw] = .error (.runtimeError what) ∧
    result = .error (.runtimeError what) ∧ raw.errors.head? = some first ∧
    what = "Error in reply: " ++ quoted first ++ tail

theorem commandRun_reports {raw : RedisReply} (hasError : raw.HasError) :
    Reports raw (commandRun (some raw)) := by
  have found := (errors_ne_nil raw).mpr hasError
  have alone : RedisReply.errorsIn [raw] = raw.errors := List.append_nil _
  cases errors : raw.errors with
  | nil => exact absurd errors found
  | cons first rest =>
    obtain ⟨tail, text⟩ := errorText_cons first rest 1
    have failed : throwIfFailed [makeRedisReplyType raw] =
        .error (.runtimeError (errorText (first :: rest) 1)) := by
      have thrown := throwIfFailed_text (alone ▸ found)
      rw [alone, errors] at thrown
      exact thrown
    refine ⟨_, first, tail, failed, ?_, by rw [errors]; rfl, text⟩
    rw [commandRun, show decoded (some raw) = makeRedisReplyType raw from rfl, failed]
    rfl

theorem Reports.bind {raw : RedisReply} {result : Except Exception α}
    (reports : Reports raw result) (finish : α → Except Exception β) :
    Reports raw (result >>= finish) := by
  obtain ⟨what, first, tail, failed, rfl, head, text⟩ := reports
  exact ⟨what, first, tail, failed, rfl, head, text⟩

/-- Nothing but a failed assertion or a wrong type makes it throw. -/
def OnlyAccess (result : Except Exception α) : Prop :=
  ∀ thrown, result = .error thrown → thrown = .assertion ∨ thrown = .badGet

namespace OnlyAccess

theorem pure (value : α) : OnlyAccess (.ok value) := fun thrown impossible => by contradiction

theorem bind {result : Except Exception α} {finish : α → Except Exception β}
    (first : OnlyAccess result) (rest : ∀ value, OnlyAccess (finish value)) :
    OnlyAccess (result >>= finish) := by
  cases result with
  | error thrown =>
    rintro _ ⟨⟩
    exact first thrown rfl
  | ok value => exact rest value

theorem cassert (asserts : Bool) (condition : Prop) [Decidable condition] :
    OnlyAccess (cassert asserts condition) := by
  intro thrown failed
  simp only [Incredis.cassert] at failed
  split at failed
  · cases failed
    exact .inl rfl
  · contradiction

theorem getString (asserts : Bool) (parReply : Reply) : OnlyAccess (getString asserts parReply) := by
  refine (cassert _ _).bind fun _ thrown failed => ?_
  cases parReply <;> cases failed <;> exact .inr rfl

theorem getArray (asserts : Bool) (parReply : Reply) : OnlyAccess (getArray asserts parReply) := by
  refine (cassert _ _).bind fun _ thrown failed => ?_
  cases parReply <;> cases failed <;> exact .inr rfl

theorem getStatus (asserts : Bool) (parReply : Reply) : OnlyAccess (getStatus asserts parReply) := by
  refine (cassert _ _).bind fun _ thrown failed => ?_
  cases parReply <;> cases failed <;> exact .inr rfl

theorem optionalString (asserts : Bool) (parReply : Reply) :
    OnlyAccess (optionalString asserts parReply) := by
  refine (cassert _ _).bind fun _ => ?_
  split
  · exact pure _
  · exact (getString asserts parReply).bind fun _ => pure _

theorem optionalStrings (asserts : Bool) (replies : List Reply) :
    OnlyAccess (optionalStrings asserts replies) := by
  induction replies with
  | nil => exact pure _
  | cons rep rest ih => exact (optionalString asserts rep).bind fun _ => ih.bind fun _ => pure _

theorem optionalStringList (asserts : Bool) (parReply : Reply) :
    OnlyAccess (optionalStringList asserts parReply) := by
  refine (cassert _ _).bind fun _ => ?_
  split
  · exact pure _
  · exact (getArray asserts parReply).bind fun _ => (optionalStrings asserts _).bind fun _ => pure _

theorem not_reports {result : Except Exception α} (access : OnlyAccess result) (raw : RedisReply) :
    ¬ Reports raw result := by
  rintro ⟨what, _, _, _, threw, _⟩
  rcases access _ threw with impossible | impossible
  · contradiction
  · contradiction

end OnlyAccess

/-- A reply with an error in it makes a command throw the report of its errors if and only if the
command goes through `Command::run`. -/
theorem errors_reported_iff {Double : Type} (r : IncRedis Double) (command : SyncCommand Double)
    {raw : RedisReply} (answered : r.server (r.requests ++ [command.request r]) = some raw)
    (hasError : raw.HasError) : Reports raw (command.call r) ↔ ¬ command.ReadsBatch := by
  constructor
  · intro reports reads
    cases command with
    | zrangebyscore parKey parMin parMinIncl parMax parMaxIncl parWithScores =>
      exact OnlyAccess.not_reports
        ((OnlyAccess.optionalStringList _ _).bind fun _ => .pure _) raw reports
    | set parKey parField =>
      exact OnlyAccess.not_reports
        (((OnlyAccess.getStatus _ _).bind fun _ => .pure _).bind fun _ => .pure _) raw reports
    | _ => exact reads
  · intro runs
    obtain ⟨finish, call⟩ := SyncCommand.call_eq r runs
    rw [call, IncRedis.run, answered]
    exact (commandRun_reports hasError).bind finish

/-! An error is not taken for a value either. -/

theorem optionalString_ok {asserts : Bool} {parReply : Reply} {value : OptString}
    (ok : optionalString asserts parReply = .ok value) :
    parReply.which = .nil ∨ parReply.which = .string := by
  cases parReply with
  | nil => exact .inl rfl
  | string => exact .inr rfl
  | _ => cases asserts <;> cases ok

theorem optionalStrings_ok {asserts : Bool} {replies : List Reply} {values : List OptString}
    (ok : optionalStrings asserts replies = .ok values) :
    ∀ rep ∈ replies, rep.which = .nil ∨ rep.which = .string := by
  induction replies generalizing values with
  | nil => exact fun rep member => absurd member List.not_mem_nil
  | cons rep rest ih =>
    cases first : optionalString asserts rep with
    | error thrown =>
      rw [optionalStrings, first] at ok
      contradiction
    | ok value =>
      cases later : optionalStrings asserts rest with
      | error thrown =>
        rw [optionalStrings, first, later] at ok
        contradiction
      | ok values => exact List.forall_mem_cons.mpr ⟨optionalString_ok first, ih later⟩

theorem which_of_hasError {raw : RedisReply} (hasError : raw.HasError) :
    (makeRedisReplyType raw).which ≠ .nil ∧ (makeRedisReplyType raw).which ≠ .string ∧
      (makeRedisReplyType raw).which ≠ .status := by
  cases hasError <;>
    exact ⟨fun same => by contradiction, fun same => by contradiction, fun same => by contradiction⟩

theorem optionalStringList_error {asserts : Bool} {raw : RedisReply} (hasError : raw.HasError)
    (value : OptStringList) : optionalStringList asserts (makeRedisReplyType raw) ≠ .ok value := by
  intro ok
  cases hasError with
  | error str => cases asserts <;> cases ok
  | @array element rep member inside =>
    cases strings : optionalStrings asserts (makeRedisReplyTypes element) with
    | error thrown =>
      have threw : optionalStringList asserts (makeRedisReplyType (.array element)) =
          optionalStrings asserts (makeRedisReplyTypes element) >>= fun values =>
            return some values := by
        cases asserts <;> rfl
      rw [threw, strings] at ok
      contradiction
    | ok values =>
      have among : makeRedisReplyType rep ∈ makeRedisReplyTypes element := by
        rw [makeRedisReplyTypes_eq]
        exact List.mem_map_of_mem member
      obtain ⟨noNil, noString, _⟩ := which_of_hasError inside
      exact (optionalStrings_ok strings _ among).elim noNil noString

theorem getStatus_error {asserts : Bool} {raw : RedisReply} (hasError : raw.HasError)
    (status : String) : getStatus asserts (makeRedisReplyType raw) ≠ .ok status := by
  intro ok
  obtain ⟨noNil, _, noStatus⟩ := which_of_hasError hasError
  cases reply : makeRedisReplyType raw with
  | nil => exact noNil (by rw [reply]; rfl)
  | status => exact noStatus (by rw [reply]; rfl)
  | _ =>
    rw [reply] at ok
    cases asserts <;> cases ok

/-- The two other commands fail on an assertion or a type where they meet the error. -/
theorem batch_command_throws {Double : Type} (r : IncRedis Double) {command : SyncCommand Double}
    (reads : command.ReadsBatch) {raw : RedisReply}
    (answered : r.server (r.requests ++ [command.request r]) = some raw)
    (hasError : raw.HasError) :
    ∃ thrown, command.call r = .error thrown ∧ (thrown = .assertion ∨ thrown = .badGet) := by
  cases command with
  | zrangebyscore parKey parMin parMinIncl parMax parMaxIncl parWithScores =>
    have reply : r.batchReply (r.zrangebyscoreRequest parKey parMin parMinIncl parMax parMaxIncl
        parWithScores) = makeRedisReplyType raw := congrArg decoded answered
    cases list : optionalStringList r.asserts (makeRedisReplyType raw) with
    | ok value => exact absurd list (optionalStringList_error hasError value)
    | error thrown =>
      refine ⟨thrown, ?_, OnlyAccess.optionalStringList _ _ thrown list⟩
      rw [SyncCommand.call, IncRedis.zrangebyscore, reply, list]
      rfl
  | set parKey parField =>
    have reply : r.batchReply ["SET", parKey, parField] = makeRedisReplyType raw :=
      congrArg decoded answered
    cases status : getStatus r.asserts (makeRedisReplyType raw) with
    | ok value => exact absurd status (getStatus_error hasError value)
    | error thrown =>
      refine ⟨thrown, ?_, OnlyAccess.getStatus _ _ thrown status⟩
      rw [SyncCommand.call, IncRedis.set, reply, status]
      rfl
  | _ => exact reads.elim

theorem zrangebyscoreRequest_eq {r : IncRedis Score.IntegralDouble}
    (texts : r.makeBoundary = Score.makeBoundary) (parKey : String) (parMin : Score.IntegralDouble)
    (parMinIncl : Bool) (parMax : Score.IntegralDouble) (parMaxIncl parWithScores : Bool) :
    r.zrangebyscoreRequest parKey parMin parMinIncl parMax parMaxIncl parWithScores =
      Score.zrangebyscore parKey parMin parMinIncl parMax parMaxIncl parWithScores := by
  rw [IncRedis.zrangebyscoreRequest, texts]
  rfl

/-- A server with one answer to everything. -/
def always (raw : RedisReply) (asserts : Bool) : IncRedis Score.IntegralDouble where
  server _ := some raw
  asserts := asserts
  intToAryDec := toString
  makeBoundary := Score.makeBoundary
  requests := []

def wrongType : RedisReply :=
  .error "WRONGTYPE Operation against a key holding the wrong kind of value"

theorem errors_reported_iff_nested :
    Reports (.array [.string "1", .array [wrongType]])
      (SyncCommand.call (always (.array [.string "1", .array [wrongType]]) true)
        (.smembers "colours")) :=
  (errors_reported_iff (always (.array [.string "1", .array [wrongType]]) true) (.smembers "colours")
    rfl (.array (List.mem_cons_of_mem _ List.mem_cons_self)
      (.array List.mem_cons_self (.error _)))).mpr id

/-- The error of a full server to `SET` and that of a key of another type to `ZRANGEBYSCORE`. -/
theorem batch_errors_unreported :
    (always (.error "OOM command not allowed") true).set "key" "value" = .error .assertion ∧
      (always (.error "OOM command not allowed") false).set "key" "value" = .error .badGet ∧
      (always wrongType true).zrangebyscore "key" ⟨false, 1, by decide⟩ true ⟨false, 2, by decide⟩ true
        false = .error .assertion ∧
      (always wrongType false).zrangebyscore "key" ⟨false, 1, by decide⟩ true ⟨false, 2, by decide⟩ true
        false = .error .badGet :=
  ⟨rfl, rfl, rfl, rfl⟩

end Incredis.Sync
