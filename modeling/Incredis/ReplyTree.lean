import Incredis.Reply

/-! What `make_redis_reply_type` keeps of a reply. Nested to any depth it keeps all but the
types that it does not know. -/
namespace Incredis

mutual
/-- The hiredis reply that a reply could have come from. -/
def Reply.raw : Reply → RedisReply
  | .integer value => .integer value
  | .string value => .string value
  | .array value => .array (Reply.raws value)
  | .error message => .error message
  | .status message => .status message
  | .nil => .nil

def Reply.raws : List Reply → List RedisReply
  | [] => []
  | head :: rest => head.raw :: Reply.raws rest
end

mutual
/-- What is left without assertions of the nodes of an unknown type. -/
def RedisReply.known : RedisReply → RedisReply
  | .other _ => .integer 0
  | .array element => .array (RedisReply.allKnown element)
  | raw => raw

def RedisReply.allKnown : List RedisReply → List RedisReply
  | [] => []
  | head :: rest => head.known :: RedisReply.allKnown rest
end

theorem makeRedisReplyType_raw (reply : Reply) : makeRedisReplyType reply.raw = reply := by
  refine Reply.rec (motive_1 := fun reply => makeRedisReplyType reply.raw = reply)
    (motive_2 := fun replies => makeRedisReplyTypes (Reply.raws replies) = replies)
    ?_ ?_ ?_ ?_ ?_ ?_ ?_ ?_ reply
  · intro _; rfl
  · intro _; rfl
  · intro value ih
    rw [Reply.raw, makeRedisReplyType, ih]
  · intro _; rfl
  · intro _; rfl
  · rfl
  · rfl
  · intro head rest headEq restEq
    rw [Reply.raws, makeRedisReplyTypes, headEq, restEq]

theorem raw_makeRedisReplyType (raw : RedisReply) : (makeRedisReplyType raw).raw = raw.known := by
  refine RedisReply.rec (motive_1 := fun raw => (makeRedisReplyType raw).raw = raw.known)
    (motive_2 := fun element =>
      Reply.raws (makeRedisReplyTypes element) = RedisReply.allKnown element)
    ?_ ?_ ?_ ?_ ?_ ?_ ?_ ?_ ?_ raw
  · intro _; rfl
  · intro _; rfl
  · intro element ih
    rw [makeRedisReplyType, Reply.raw, RedisReply.known, ih]
  · intro _; rfl
  · intro _; rfl
  · rfl
  · intro _; rfl
  · rfl
  · intro head rest headEq restEq
    rw [makeRedisReplyTypes, Reply.raws, RedisReply.allKnown, headEq, restEq]

/-- Every reply is the decoding of some tree, and two trees are decoded alike if and only if
they differ in nodes of an unknown type at most, which turn into the integer 0. -/
theorem decoding_keeps : (∀ reply, ∃ raw, makeRedisReplyType raw = reply) ∧
    ∀ first second, makeRedisReplyType first = makeRedisReplyType second ↔
      first.known = second.known := by
  refine ⟨fun reply => ⟨reply.raw, makeRedisReplyType_raw reply⟩, fun first second => ?_⟩
  rw [← raw_makeRedisReplyType, ← raw_makeRedisReplyType]
  constructor
  · exact congrArg Reply.raw
  · intro same
    have again := congrArg makeRedisReplyType same
    rwa [makeRedisReplyType_raw, makeRedisReplyType_raw] at again

end Incredis
