/-! A server behind a log. Requests take effect in the order of the log, and the
answer to one depends on everything up to it. Several clients may share the log;
each sees its own requests and their answers. -/
namespace Sequential
variable {ι ρ α : Type}

/-- What the server answers to the requests of a log, one after the other. -/
def answers (server : List ρ → α) : List ρ → List α
  | [] => []
  | request :: rest => server [request] :: answers (fun more => server (request :: more)) rest

@[simp] theorem answers_length (server : List ρ → α) (log : List ρ) :
    (answers server log).length = log.length := by
  induction log generalizing server with
  | nil => rfl
  | cons request rest ih => simp only [answers, List.length_cons, ih]

/-- The server goes on from where the first requests have left it. -/
theorem answers_append (server : List ρ → α) (first second : List ρ) :
    answers server (first ++ second) =
      answers server first ++ answers (fun more => server (first ++ more)) second := by
  induction first generalizing server with
  | nil => rfl
  | cons request rest ih => simp only [answers, List.cons_append, ih]

section Shared
variable [DecidableEq ι]

/-- The requests of one client. -/
def requestsOf (log : List (ι × ρ)) (i : ι) : List ρ :=
  (log.filter fun entry => entry.1 = i).map Prod.snd

/-- The answers to the requests of one client. -/
def answersOf (server : List ρ → α) (log : List (ι × ρ)) (i : ι) : List α :=
  ((log.zip (answers server (log.map Prod.snd))).filter fun entry => entry.1.1 = i).map Prod.snd

@[simp] theorem requestsOf_nil (i : ι) : requestsOf ([] : List (ι × ρ)) i = [] := rfl

theorem requestsOf_append (first second : List (ι × ρ)) (i : ι) :
    requestsOf (first ++ second) i = requestsOf first i ++ requestsOf second i := by
  simp only [requestsOf, List.filter_append, List.map_append]

theorem requestsOf_concat (log : List (ι × ρ)) (j : ι) (request : ρ) (i : ι) :
    requestsOf (log ++ [(j, request)]) i = requestsOf log i ++ if j = i then [request] else [] := by
  rw [requestsOf_append]
  by_cases same : j = i <;> simp [requestsOf, same]

theorem answersOf_append (server : List ρ → α) (first second : List (ι × ρ)) (i : ι) :
    answersOf server (first ++ second) i = answersOf server first i ++
      answersOf (fun more => server (first.map Prod.snd ++ more)) second i := by
  have together : (first ++ second).zip (answers server ((first ++ second).map Prod.snd)) =
      first.zip (answers server (first.map Prod.snd)) ++
        second.zip (answers (fun more => server (first.map Prod.snd ++ more))
          (second.map Prod.snd)) := by
    rw [List.map_append, answers_append]
    exact List.zip_append (by simp)
  simp only [answersOf]
  rw [together, List.filter_append, List.map_append]

@[simp] theorem answersOf_length (server : List ρ → α) (log : List (ι × ρ)) (i : ι) :
    (answersOf server log i).length = (requestsOf log i).length := by
  induction log generalizing server with
  | nil => rfl
  | cons entry rest ih =>
    rw [← List.singleton_append, answersOf_append, requestsOf_append, List.length_append,
      List.length_append, ih]
    by_cases same : entry.1 = i <;> simp [answersOf, requestsOf, answers, same]

theorem requestsOf_alone (requests : List ρ) (i : ι) :
    requestsOf (requests.map fun request => (i, request)) i = requests := by
  induction requests with
  | nil => rfl
  | cons request rest ih =>
    rw [List.map_cons, ← List.singleton_append, requestsOf_append, ih]
    simp [requestsOf]

/-- A client that nobody interrupts gets what the server answers to it alone. -/
theorem answersOf_alone (server : List ρ → α) (requests : List ρ) (i : ι) :
    answersOf server (requests.map fun request => (i, request)) i = answers server requests := by
  induction requests generalizing server with
  | nil => rfl
  | cons request rest ih =>
    rw [List.map_cons, ← List.singleton_append, answersOf_append, ih]
    simp [answersOf, answers]

theorem answersOf_eq_nil {server : List ρ → α} {log : List (ι × ρ)} {i : ι}
    (silent : requestsOf log i = []) : answersOf server log i = [] := by
  rw [← List.length_eq_zero_iff, answersOf_length, silent, List.length_nil]

theorem answersOf_prefix (server : List ρ → α) {log later : List (ι × ρ)} (grown : log <+: later)
    (i : ι) : answersOf server log i <+: answersOf server later i := by
  obtain ⟨more, rfl⟩ := grown
  exact ⟨_, (answersOf_append server log more i).symm⟩

/-- The place in the log where the `k`-th request of a client takes effect. -/
def TakesEffect (log : List (ι × ρ)) (i : ι) (k place : Nat) (request : ρ) : Prop :=
  log[place]? = some (i, request) ∧ (requestsOf (log.take place) i).length = k

section TakesEffect
variable {log later : List (ι × ρ)} {i j : ι} {k l place other : Nat} {request : ρ}

theorem TakesEffect.split (effect : TakesEffect log i k place request) :
    ∃ before after, log = before ++ (i, request) :: after ∧ log.take place = before ∧
      (requestsOf before i).length = k := by
  obtain ⟨bound, same⟩ := List.getElem?_eq_some_iff.mp effect.1
  refine ⟨log.take place, log.drop (place + 1), ?_, rfl, effect.2⟩
  rw [← same, ← List.drop_eq_getElem_cons, List.take_append_drop]

theorem TakesEffect.below (effect : TakesEffect log i k place request) :
    k < (requestsOf log i).length := by
  obtain ⟨before, after, rfl, _, asked⟩ := effect.split
  rw [requestsOf_append, List.length_append, asked]
  simp [requestsOf]

/-- The client asked for it and the server answered on the ground of all before. -/
theorem TakesEffect.answered (effect : TakesEffect log i k place request) (server : List ρ → α) :
    (requestsOf log i)[k]? = some request ∧
      (answersOf server log i)[k]? =
        some (server ((log.take place).map Prod.snd ++ [request])) := by
  obtain ⟨before, after, split, taken, asked⟩ := effect.split
  rw [taken, split, requestsOf_append, answersOf_append]
  constructor
  · rw [List.getElem?_append_right (Nat.le_of_eq asked), asked, Nat.sub_self]
    simp [requestsOf]
  · rw [List.getElem?_append_right (Nat.le_of_eq (by rw [answersOf_length, asked])),
      answersOf_length, asked, Nat.sub_self]
    simp [answersOf, answers]

theorem TakesEffect.grown (effect : TakesEffect log i k place request) (grown : log <+: later) :
    TakesEffect later i k place request := by
  obtain ⟨more, rfl⟩ := grown
  obtain ⟨bound, _⟩ := List.getElem?_eq_some_iff.mp effect.1
  constructor
  · rw [List.getElem?_append_left bound, effect.1]
  · rw [List.take_append_of_le_length (Nat.le_of_lt bound), effect.2]

/-- Each request of a client takes effect. -/
theorem takesEffect_exists (log : List (ι × ρ)) (i : ι) (bound : k < (requestsOf log i).length) :
    ∃ place request, TakesEffect log i k place request := by
  induction log generalizing k with
  | nil => simp at bound
  | cons entry rest ih =>
    obtain ⟨j, asked⟩ := entry
    rw [← List.singleton_append, requestsOf_append, List.length_append] at bound
    by_cases first : j = i ∧ k = 0
    · obtain ⟨rfl, rfl⟩ := first
      exact ⟨0, asked, rfl, rfl⟩
    · have left : k - (requestsOf [(j, asked)] i).length < (requestsOf rest i).length := by
        by_cases same : j = i <;> simp [requestsOf, same] at bound first ⊢ <;> omega
      obtain ⟨place, request, found, before⟩ := ih left
      refine ⟨place + 1, request, found, ?_⟩
      rw [List.take_succ_cons, ← List.singleton_append, requestsOf_append, List.length_append,
        before]
      by_cases same : j = i <;> simp [requestsOf, same] at first ⊢
      omega

/-- It does so once. -/
theorem TakesEffect.place_eq {again : ρ} (effect : TakesEffect log i k place request)
    (once : TakesEffect log i k other again) : place = other := by
  have not_before {p q : Nat} {r t : ρ} (one : TakesEffect log i k p r)
      (two : TakesEffect log i k q t) : ¬ p < q := by
    intro before
    have early : TakesEffect (log.take q) i k p r := by
      constructor
      · rw [List.getElem?_take_of_lt before, one.1]
      · rw [List.take_take, Nat.min_eq_left (Nat.le_of_lt before), one.2]
    have := early.below
    rw [two.2] at this
    omega
  exact Nat.le_antisymm (Nat.le_of_not_lt (not_before once effect))
    (Nat.le_of_not_lt (not_before effect once))

/-- A request that has been made takes effect before one that has not. -/
theorem TakesEffect.before {first second : ρ} (grown : log <+: later)
    (made : k < (requestsOf log i).length) (unmade : (requestsOf log j).length ≤ l)
    (one : TakesEffect later i k place first) (two : TakesEffect later j l other second) :
    place < other := by
  obtain ⟨early, request, effect⟩ := takesEffect_exists log i made
  obtain rfl := one.place_eq (effect.grown grown)
  obtain ⟨bound, _⟩ := List.getElem?_eq_some_iff.mp effect.1
  refine Nat.lt_of_not_le fun notLater => ?_
  -- the second one would be within the log
  obtain ⟨more, rfl⟩ := grown
  have within : TakesEffect log j l other second := by
    constructor
    · rw [← two.1, List.getElem?_append_left (by omega)]
    · rw [← two.2, List.take_append_of_le_length (by omega)]
  have := within.below
  omega

end TakesEffect
end Shared
end Sequential
