import Incredis.Commands.Values

/-! `IncRedisBatch` beside `IncRedis`. The commands of a batch get the values that they get
when they are called one after the other, each after the reply to the one before. -/
namespace Incredis.Sync
variable {Double : Type} {asserts : Bool}

inductive AddMode
  | xx
  | nx
  | none
deriving DecidableEq, Repr

/-- A method of `IncRedisBatch`, or `run` of the `Batch` in it. -/
inductive BatchCommand (Double : Type)
  | run (request : Request)
  | select (parIndex : Int)
  | clientSetname (parName : String)
  | del (parArg : String) (parArgs : List String)
  | set (parKey parField : String) (parMode : AddMode)
  | hget (parKey parField : String)
  | hmget (parKey parArg : String) (parArgs : List String)
  | hmset (parKey : String) (parArg : String × String) (parArgs : List (String × String))
  | hincrby (parKey parField : String) (parInc : Int)
  | srandmemberCount (parKey : String) (parCount : Int)
  | srandmember (parKey : String)
  | sadd (parKey parArg : String) (parArgs : List String)
  | zrangebyscore (parKey : String) (parMin : Double) (parMinIncl : Bool) (parMax : Double)
    (parMaxIncl parWithScores : Bool)
  | scriptFlush

/-- What the method gives to `m_batch.run`. -/
def BatchCommand.request (r : IncRedis Double) : BatchCommand Double → Request
  | .run request => request
  | .select parIndex => ["SELECT", r.intToAryDec parIndex]
  | .clientSetname parName => ["CLIENT", "SETNAME", parName]
  | .del parArg parArgs => "DEL" :: parArg :: parArgs
  | .set parKey parField .none => ["SET", parKey, parField]
  | .set parKey parField .nx => ["SET", parKey, parField, "NX"]
  | .set parKey parField .xx => ["SET", parKey, parField, "XX"]
  | .hget parKey parField => ["HGET", parKey, parField]
  | .hmget parKey parArg parArgs => "HMGET" :: parKey :: parArg :: parArgs
  | .hmset parKey parArg parArgs =>
    "HMSET" :: parKey :: (parArg :: parArgs).flatMap fun arg => [arg.1, arg.2]
  | .hincrby parKey parField parInc => ["HINCRBY", parKey, parField, r.intToAryDec parInc]
  | .srandmemberCount parKey parCount => ["SRANDMEMBER", parKey, r.intToAryDec parCount]
  | .srandmember parKey => ["SRANDMEMBER", parKey]
  | .sadd parKey parArg parArgs => "SADD" :: parKey :: parArg :: parArgs
  | .zrangebyscore parKey parMin parMinIncl parMax parMaxIncl parWithScores =>
    r.zrangebyscoreRequest parKey parMin parMinIncl parMax parMaxIncl parWithScores
  | .scriptFlush => ["SCRIPT", "FLUSH"]

/-- The method of the same name. The commands without one are run as they are. -/
def SyncCommand.batched (r : IncRedis Double) : SyncCommand Double → BatchCommand Double
  | .hget parKey parField => .hget parKey parField
  | .hmget parKey parArg parArgs => .hmget parKey parArg parArgs
  | .hmset parKey parArg parArgs => .hmset parKey parArg parArgs
  | .hincrby parKey parField parInc => .hincrby parKey parField parInc
  | .srandmemberCount parKey parCount => .srandmemberCount parKey parCount
  | .srandmember parKey => .srandmember parKey
  | .zrangebyscore parKey parMin parMinIncl parMax parMaxIncl parWithScores =>
    .zrangebyscore parKey parMin parMinIncl parMax parMaxIncl parWithScores
  | .scriptFlush => .scriptFlush
  | .del parArg parArgs => .del parArg parArgs
  | .set parKey parField => .set parKey parField .none
  | command => .run (command.request r)

/-- Both classes word their requests alike. -/
theorem SyncCommand.batched_request (r : IncRedis Double) (command : SyncCommand Double) :
    (command.batched r).request r = command.request r := by
  cases command <;> rfl

/-- Each call is made when the one before has returned. -/
def callEach (r : IncRedis Double) : List (SyncCommand Double) → Except Exception (List Value)
  | [] => return []
  | command :: rest => do
    let value ← command.call r
    let values ← callEach { r with requests := r.requests ++ [command.request r] } rest
    return value :: values

/-- The replies of a batch, each taken for what its command is to return. -/
def finishEach (asserts : Bool) :
    List (SyncCommand Double) → List Reply → Except Exception (List Value)
  | command :: rest, reply :: replies => do
    let value ← command.kind.finish asserts reply
    let values ← finishEach asserts rest replies
    return value :: values
  | _, _ => return []

/-- `throw_if_failed` and then the values. -/
def batchValues (asserts : Bool) (commands : List (SyncCommand Double)) (replies : List Reply) :
    Except Exception (List Value) := do
  throwIfFailed replies
  finishEach asserts commands replies

theorem callEach_values (r : IncRedis Double) (commands : List (SyncCommand Double)) :
    (callEach r commands).toOption =
      (finishEach r.asserts commands (Batch.batchReplies r.server r.requests
        (commands.map (SyncCommand.request r)))).toOption := by
  induction commands generalizing r with
  | nil => rfl
  | cons command rest ih =>
    have onwards := ih { r with requests := r.requests ++ [command.request r] }
    rw [SyncCommand.request_later r (r.requests ++ [command.request r])] at onwards
    rw [List.map_cons, Batch.batchReplies_cons, callEach, finishEach, toOption_bind, toOption_bind,
      call_toOption, finish_readAnswer]
    simp only [toOption_bind, onwards]

/-- An error leaves its command without a value, so there is none when all have one. -/
theorem finishEach_clean {commands : List (SyncCommand Double)} {given : List (Option RedisReply)}
    (each : given.length = commands.length) {values : List Value}
    (finished : finishEach asserts commands (given.map decoded) = .ok values) :
    Reply.errorsIn (given.map decoded) = [] := by
  induction commands generalizing given values with
  | nil =>
    rw [List.eq_nil_of_length_eq_zero each]
    rfl
  | cons command rest ih =>
    obtain ⟨answer, more, rfl⟩ := List.exists_cons_of_length_eq_add_one each
    rw [List.map_cons, finishEach] at finished
    cases first : command.kind.finish asserts (decoded answer) with
    | error thrown =>
      rw [first] at finished
      contradiction
    | ok value =>
      cases later : finishEach asserts rest (more.map decoded) with
      | error thrown =>
        rw [first, later] at finished
        contradiction
      | ok values =>
        have clean := finish_clean (ok_iff_toOption.mp first)
        rw [List.map_cons, Reply.errorsIn, clean, ih (Nat.succ.inj each) later, List.append_nil]

/-- The batch throws for an error that would otherwise fail its command. -/
theorem batchValues_toOption {commands : List (SyncCommand Double)}
    {given : List (Option RedisReply)} (each : given.length = commands.length) :
    (batchValues asserts commands (given.map decoded)).toOption =
      (finishEach asserts commands (given.map decoded)).toOption := by
  rw [batchValues, toOption_bind]
  cases finished : finishEach asserts commands (given.map decoded) with
  | ok values =>
    rw [(throwIfFailed_ok_iff _).mpr (finishEach_clean each finished)]
    rfl
  | error thrown => cases throwIfFailed (given.map decoded) <;> rfl

theorem batchValues_callEach (r : IncRedis Double) (commands : List (SyncCommand Double)) :
    (batchValues r.asserts commands (Batch.batchReplies r.server r.requests
      (commands.map (SyncCommand.request r)))).toOption = (callEach r commands).toOption := by
  rw [callEach_values, Batch.batchReplies]
  apply batchValues_toOption
  rw [Sequential.answers_length, List.length_map]

/-- A batch that no other command interrupts yields values if and only if the calls return
them, and the same ones. -/
theorem batched_values {B : Type} [DecidableEq B] {limit : Int} (r : IncRedis Double)
    {s : Batch.State B × List (B × Request)} {b : B}
    (run : Transition.Reaches (Batch.pipeline B limit) (Batch.Served r.server) s)
    (returning : (s.1.part b).client = .returning .replies)
    {before after : List (B × Request)} {commands : List (SyncCommand Double)}
    (log : s.2 = before ++
      (commands.map fun command => (b, (command.batched r).request r)) ++ after)
    (first : Sequential.requestsOf before b = []) (last : Sequential.requestsOf after b = [])
    (asked : r.requests = before.map Prod.snd) (values : List Value) :
    batchValues r.asserts commands (s.1.part b).replies.range.elements = .ok values ↔
      callEach r commands = .ok values := by
  have sent : s.2 = before ++
      (commands.map (SyncCommand.request r)).map (fun request => (b, request)) ++ after := by
    rw [log, List.map_map]
    simp only [SyncCommand.batched_request, Function.comp_def]
  have same := batchValues_callEach r commands
  rw [asked, ← Batch.uninterrupted_replies run returning sent first last] at same
  rw [ok_iff_toOption, ok_iff_toOption, same]

/-- The server has been asked for one command of the other batch. -/
def askedOne : IncRedis Score.IntegralDouble where
  server log := match log.getLast? with
    | some ("HINCRBY" :: _) => some (.integer 5)
    | some ("HGET" :: _) => some (.string "5")
    | _ => some (.status "OK")
  asserts := true
  intToAryDec := toString
  makeBoundary := Score.makeBoundary
  requests := [["INCR", "a"]]

/-- Three methods in one batch, between two commands of the other one. -/
theorem batched_values_counting : ∃ s : Batch.State Bool × List (Bool × Request),
    (s.1.part false).commands.length = 3 ∧
    batchValues true [(.hincrby "h" "n" 2 : SyncCommand Score.IntegralDouble), .hget "h" "n",
        .set "key" "value"] (s.1.part false).replies.range.elements =
      .ok [.integer 5, .optString (some "5"), .bool true] := by
  obtain ⟨s, run, returning, log⟩ := @Batch.batch_of_three askedOne.server ["HINCRBY", "h", "n", "2"]
    ["HGET", "h", "n"] ["SET", "key", "value"] _ _ _ rfl rfl rfl
  have between : s.2 = [(true, ["INCR", "a"])] ++
      [SyncCommand.hincrby "h" "n" 2, .hget "h" "n", .set "key" "value"].map
        (fun command => (false, (command.batched askedOne).request askedOne)) ++
      [(true, ["INCR", "c"])] := log
  have sent := Batch.returned_sent run returning
  rw [log] at sent
  have size := congrArg List.length sent
  rw [List.length_map] at size
  exact ⟨s, size.symm, (batched_values askedOne run returning between rfl rfl rfl _).mpr rfl⟩

end Incredis.Sync
