/-! Replies as the library hands them out, the hiredis replies they are made
from, and the accessors. Characters of a string stand for bytes. -/
namespace Incredis

/-- `redisReply` of hiredis; `other` is any type the library has no case for. -/
inductive RedisReply
  | integer (integer : Int)
  | string (str : String)
  | array (element : List RedisReply)
  | error (str : String)
  | status (str : String)
  | nil
  | other (type : Int)

/-- The bounded types of the variant, in the order of `RedisVariantTypes`. -/
inductive Reply
  | integer (value : Int)
  | string (value : String)
  | array (value : List Reply)
  | error (message : String)
  | status (message : String)
  | nil
deriving Repr

inductive RedisVariantTypes
  | integer
  | string
  | array
  | error
  | status
  | nil
deriving DecidableEq, Repr

def Reply.which : Reply → RedisVariantTypes
  | .integer _ => .integer
  | .string _ => .string
  | .array _ => .array
  | .error _ => .error
  | .status _ => .status
  | .nil => .nil

/-- A default-constructed variant holds its first type, value-initialised. -/
instance : Inhabited Reply := ⟨.integer 0⟩

mutual
def makeRedisReplyType : RedisReply → Reply
  | .integer integer => .integer integer
  | .string str => .string str
  | .array element => .array (makeRedisReplyTypes element)
  | .error str => .error str
  | .status str => .status str
  | .nil => .nil
  -- assert(false) here; the release build goes on with Reply()
  | .other _ => default

/-- The transforming iterator over `element`. -/
def makeRedisReplyTypes : List RedisReply → List Reply
  | [] => []
  | head :: rest => makeRedisReplyType head :: makeRedisReplyTypes rest
end

theorem makeRedisReplyTypes_eq (element : List RedisReply) :
    makeRedisReplyTypes element = element.map makeRedisReplyType := by
  induction element with
  | nil => rfl
  | cons head rest ih => simp only [makeRedisReplyTypes, ih, List.map_cons]

mutual
/-- No node is of a type that `make_redis_reply_type` has no case for. -/
def RedisReply.recognised : RedisReply → Bool
  | .other _ => false
  | .array element => RedisReply.allRecognised element
  | _ => true

def RedisReply.allRecognised : List RedisReply → Bool
  | [] => true
  | head :: rest => head.recognised && RedisReply.allRecognised rest
end

/-- The slot of a command once its callback has returned: a NULL reply leaves the
default-constructed value in place. -/
def decoded : Option RedisReply → Reply
  | some raw => makeRedisReplyType raw
  | none => default

/-- What the library or a library it uses throws. The last two are no exceptions but
the end of a meaningful run: a failed assertion, and an access past the end of an
array. -/
inductive Exception
  | runtimeError (what : String)
  | badGet
  | domainError (what : String)
  | assertion
  | outOfRange
deriving DecidableEq, Repr

/-- `assert` in a build that has them compiled in, or not. -/
def cassert (asserts : Bool) (condition : Prop) [Decidable condition] : Except Exception Unit :=
  if asserts ∧ ¬ condition then .error .assertion else .ok ()

@[simp] theorem cassert_of {asserts : Bool} {condition : Prop} [Decidable condition]
    (holds : condition) : cassert asserts condition = .ok () := by
  simp [cassert, holds]

@[simp] theorem cassert_off (condition : Prop) [Decidable condition] :
    cassert false condition = .ok () := by
  simp [cassert]

/-- `items[i]` on an array given by its remaining elements. -/
def readAt (items : List α) (i : Nat) : Except Exception α :=
  match items[i]? with
  | some item => .ok item
  | none => .error .outOfRange

section
variable (asserts : Bool)

/-! The accessors: an assertion, and a `boost::get` that throws on a wrong type. -/

def getInteger (parReply : Reply) : Except Exception Int := do
  cassert asserts (parReply.which = .integer)
  match parReply with
  | .integer value => .ok value
  | _ => .error .badGet

def getString (parReply : Reply) : Except Exception String := do
  cassert asserts (parReply.which = .nil ∨ parReply.which = .string)
  match parReply with
  | .nil => .ok ""
  | .string value => .ok value
  | _ => .error .badGet

def getArray (parReply : Reply) : Except Exception (List Reply) := do
  cassert asserts (parReply.which = .array)
  match parReply with
  | .array value => .ok value
  | _ => .error .badGet

/-- `get<StatusString>`; only the message of the status is kept. -/
def getStatus (parReply : Reply) : Except Exception String := do
  cassert asserts (parReply.which = .nil ∨ parReply.which = .status)
  match parReply with
  | .nil => .ok ""
  | .status message => .ok message
  | _ => .error .badGet

/-- `intConv` is `int_conv<RedisInt>` on strings. -/
def getIntegerAutoconvIfStr (intConv : String → Except Exception Int) :
    Reply → Except Exception Int
  | .integer value => .ok value
  | .string value => intConv value
  | _ => do
    cassert asserts False
    .ok 0

@[simp] theorem getString_string (value : String) : getString asserts (.string value) = .ok value := by
  cases asserts <;> rfl

@[simp] theorem getArray_array (value : List Reply) : getArray asserts (.array value) = .ok value := by
  cases asserts <;> rfl

end

end Incredis
