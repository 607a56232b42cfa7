import Mathlib.Data.List.Forall2

/-!
# Loops in `Except`

A monadic loop whose body never throws computes what the plain loop computes, and a loop that ends
without an exception had a body that did not throw.
-/

namespace LasecSimul.Lib.Fallible

variable {ε α β : Type} {xs : List α}

/-- Results of a loop whose body never throws, element by element. -/
theorem mapM_exists (xs : List α) (f : α → Except ε β) (ok : ∀ x ∈ xs, ∃ y, f x = .ok y) :
    ∃ ys, xs.mapM f = .ok ys ∧ List.Forall₂ (fun x y => f x = .ok y) xs ys := by
  induction xs with
  | nil => exact ⟨[], rfl, .nil⟩
  | cons x xs ih =>
    obtain ⟨y, first⟩ := ok x List.mem_cons_self
    obtain ⟨ys, rest, each⟩ := ih fun z hz => ok z (List.mem_cons_of_mem _ hz)
    exact ⟨y :: ys, by rw [List.mapM_cons, first, rest]; rfl, .cons first each⟩

theorem mem_of_forall₂ {r : α → β → Prop} {ys : List β} (each : List.Forall₂ r xs ys)
    {y : β} (member : y ∈ ys) : ∃ x ∈ xs, r x y := by
  induction each with
  | nil => cases member
  | cons first _ ih =>
    rcases List.mem_cons.mp member with rfl | member
    · exact ⟨_, List.mem_cons_self, first⟩
    · obtain ⟨x, hx, h⟩ := ih member
      exact ⟨x, List.mem_cons_of_mem _ hx, h⟩

theorem map_eq_of_forall₂ {γ : Type} {r : α → β → Prop} {f : α → γ} {g : β → γ} {ys : List β}
    (each : List.Forall₂ r xs ys) (agree : ∀ x y, r x y → f x = g y) : xs.map f = ys.map g := by
  induction each with
  | nil => rfl
  | cons first _ ih => rw [List.map_cons, List.map_cons, agree _ _ first, ih]

theorem exists_of_forall₂ {r : α → β → Prop} {ys : List β} (each : List.Forall₂ r xs ys)
    {x : α} (member : x ∈ xs) : ∃ y ∈ ys, r x y :=
  mem_of_forall₂ each.flip member

theorem forall₂_filter {R S : α → β → Prop} {p : α → Bool} {q : β → Bool} {ys : List β}
    (each : List.Forall₂ R xs ys) (agree : ∀ x y, R x y → p x = q y) (kept : ∀ x y, R x y → p x = true → S x y) :
    List.Forall₂ S (xs.filter p) (ys.filter q) := by
  induction each with
  | nil => exact .nil
  | @cons x y _ _ related _ ih =>
    cases passes : p x with
    | true =>
      rw [List.filter_cons_of_pos passes, List.filter_cons_of_pos ((agree x y related).symm.trans passes)]
      exact .cons (kept x y related passes) ih
    | false =>
      rw [List.filter_cons_of_neg (Bool.eq_false_iff.mp passes),
        List.filter_cons_of_neg (Bool.eq_false_iff.mp ((agree x y related).symm.trans passes))]
      exact ih

theorem forall₂_mem {R : α → β → Prop} {ys : List β} (each : List.Forall₂ R xs ys) :
    List.Forall₂ (fun x y => x ∈ xs ∧ R x y) xs ys := by
  induction each with
  | nil => exact .nil
  | cons related _ ih =>
    refine .cons ⟨List.mem_cons_self, related⟩ (ih.imp ?_)
    exact fun x y both => ⟨List.mem_cons_of_mem _ both.1, both.2⟩

theorem forall₂_append_right {R : α → β → Prop} {ys zs : List β} (each : List.Forall₂ R xs (ys ++ zs)) :
    ∃ as bs, List.Forall₂ R as ys ∧ List.Forall₂ R bs zs ∧ xs = as ++ bs := by
  induction ys generalizing xs with
  | nil => exact ⟨[], xs, .nil, each, rfl⟩
  | cons y ys ih =>
    cases each with
    | cons related later =>
      obtain ⟨as, bs, front, back, rfl⟩ := ih later
      exact ⟨_ :: as, bs, .cons related front, back, rfl⟩

/-- A list has one first element with `P`. -/
theorem first_unique {P : α → Prop} {done done' rest rest' : List α} {x x' : α}
    (same : done ++ x :: rest = done' ++ x' :: rest') (before : ∀ y ∈ done, ¬P y) (here : P x)
    (before' : ∀ y ∈ done', ¬P y) (here' : P x') : done = done' := by
  induction done generalizing done' with
  | nil =>
    cases done' with
    | nil => rfl
    | cons z zs =>
      obtain ⟨rfl, _⟩ := List.cons_eq_cons.mp same
      exact absurd here (before' x List.mem_cons_self)
  | cons y ys ih =>
    cases done' with
    | nil =>
      obtain ⟨rfl, _⟩ := List.cons_eq_cons.mp same
      exact absurd here' (before y List.mem_cons_self)
    | cons z zs =>
      obtain ⟨rfl, tails⟩ := List.cons_eq_cons.mp same
      rw [ih tails (fun w member => before w (List.mem_cons_of_mem _ member))
        fun w member => before' w (List.mem_cons_of_mem _ member)]

theorem forall₂_square {γ δ : Type} {P : α → γ → Prop} {Q : β → δ → Prop} {R : α → β → Prop} {S : γ → δ → Prop}
    {ys : List β} {as : List γ} {bs : List δ} (left : List.Forall₂ P xs as) (right : List.Forall₂ Q ys bs)
    (across : List.Forall₂ R xs ys) (square : ∀ x y a b, P x a → Q y b → R x y → S a b) :
    List.Forall₂ S as bs := by
  induction across generalizing as bs with
  | nil =>
    cases left
    cases right
    exact .nil
  | cons related _ ih =>
    cases left with
    | cons first later =>
      cases right with
      | cons first' later' => exact .cons (square _ _ _ _ first first' related) (ih later later')

theorem filterM_ok {f : α → Except ε Bool} {p : α → Bool} (ok : ∀ x ∈ xs, f x = .ok (p x)) :
    xs.filterM f = .ok (xs.filter p) := by
  have loop : ∀ (xs acc : List α), (∀ x ∈ xs, f x = .ok (p x)) →
      List.filterAuxM f xs acc = .ok ((xs.filter p).reverse ++ acc) := by
    intro xs
    induction xs with
    | nil => intro acc _; rfl
    | cons x xs ih =>
      intro acc ok
      have rest := ih (if p x then x :: acc else acc) fun y hy => ok y (List.mem_cons_of_mem _ hy)
      unfold List.filterAuxM
      rw [ok x List.mem_cons_self]
      cases px : p x <;> simp only [px, Bool.false_eq_true, if_true, if_false] at rest
      · simpa [px, bind, Except.bind] using rest
      · simpa [px, bind, Except.bind] using rest
  unfold List.filterM
  rw [loop xs [] ok]
  simp [bind, Except.bind, pure, Except.pure]

theorem foldlM_ok {f : β → α → Except ε β} (P : β → Prop) {start : β} (begins : P start)
    (ok : ∀ acc, P acc → ∀ x ∈ xs, ∃ next, f acc x = .ok next ∧ P next) :
    ∃ last, xs.foldlM f start = .ok last ∧ P last := by
  induction xs generalizing start with
  | nil => exact ⟨start, rfl, begins⟩
  | cons x xs ih =>
    obtain ⟨next, step, keeps⟩ := ok start begins x List.mem_cons_self
    obtain ⟨last, run, ends⟩ := ih keeps fun acc h y hy => ok acc h y (List.mem_cons_of_mem _ hy)
    exact ⟨last, by rw [List.foldlM_cons, step]; exact run, ends⟩

/-! ### Loops that ended -/

theorem bind_ok {x : Except ε α} {f : α → Except ε β} {b : β} (h : x >>= f = .ok b) :
    ∃ a, x = .ok a ∧ f a = .ok b := by
  cases x with
  | error => cases h
  | ok a => exact ⟨a, rfl, h⟩

theorem ite_some {c : Prop} [Decidable c] {a b : α} {otherwise : Option α}
    (h : (if c then some a else otherwise) = some b) : c ∧ a = b ∨ ¬c ∧ otherwise = some b := by
  by_cases here : c
  · rw [if_pos here] at h
    exact .inl ⟨here, Option.some.inj h⟩
  · rw [if_neg here] at h
    exact .inr ⟨here, h⟩

theorem toOption_map {x : Except ε α} {f : α → β} {b : β} (h : x.toOption.map f = some b) :
    ∃ a, x = .ok a ∧ f a = b := by
  cases x with
  | error => cases h
  | ok a => exact ⟨a, rfl, Option.some.inj h⟩

theorem foldlM_history {f : β → α → Except ε β} {P : List α → β → Prop} {start last : β}
    (run : xs.foldlM f start = .ok last) (begins : P [] start)
    (keeps : ∀ done x acc next, P done acc → f acc x = .ok next → P (done ++ [x]) next) : P xs last := by
  have along : ∀ (rest done : List α) (acc : β), P done acc → rest.foldlM f acc = .ok last →
      P (done ++ rest) last := by
    intro rest
    induction rest with
    | nil =>
      intro done acc h run
      rw [List.append_nil]
      exact Except.ok.inj run ▸ h
    | cons x rest ih =>
      intro done acc h run
      rw [List.foldlM_cons] at run
      obtain ⟨next, step, run⟩ := bind_ok run
      have ended := ih (done ++ [x]) next (keeps done x acc next h step) run
      rwa [List.append_assoc] at ended
  exact along xs [] start begins run

/-- The loop over `xs` comes to `x` in the state `before`. -/
def Visits (f : β → α → Except ε β) (xs : List α) (start : β) (x : α) (before : β) : Prop :=
  ∃ done rest, xs = done ++ x :: rest ∧ done.foldlM f start = .ok before

theorem foldlM_snoc {f : β → α → Except ε β} {start middle : β} (run : xs.foldlM f start = .ok middle) (x : α) :
    (xs ++ [x]).foldlM f start = f middle x := by
  rw [List.foldlM_append, run]
  exact bind_pure (f middle x)

/-- What the iterations of a loop amount to, up to the first exception. -/
def tally (f : β → α → Except ε β) (weight : β → α → Nat) : β → List α → Nat
  | _, [] => 0
  | acc, x :: xs =>
    weight acc x +
      match f acc x with
      | .ok next => tally f weight next xs
      | .error _ => 0

theorem tally_append {f : β → α → Except ε β} {start middle : β} (run : xs.foldlM f start = .ok middle)
    (weight : β → α → Nat) (ys : List α) :
    tally f weight start (xs ++ ys) = tally f weight start xs + tally f weight middle ys := by
  induction xs generalizing start with
  | nil =>
    cases run
    exact (Nat.zero_add _).symm
  | cons x xs ih =>
    rw [List.foldlM_cons] at run
    obtain ⟨next, step, run⟩ := bind_ok run
    rw [List.cons_append, tally, tally, step]
    dsimp only
    rw [ih run, Nat.add_assoc]

theorem tally_zero {f : β → α → Except ε β} {weight : β → α → Nat} (none : ∀ x ∈ xs, ∀ acc, weight acc x = 0)
    (start : β) : tally f weight start xs = 0 := by
  induction xs generalizing start with
  | nil => rfl
  | cons x xs ih =>
    rw [tally, none x List.mem_cons_self]
    cases f start x with
    | ok next => exact (Nat.zero_add _).trans (ih (fun y later => none y (List.mem_cons_of_mem _ later)) next)
    | error => rfl

/-- What a loop shows is changed only where it comes to `x`, which it does once. -/
theorem foldlM_once {γ : Type} {f : β → α → Except ε β} {view : β → γ} {start last : β} {x : α} (once : xs.Nodup)
    (member : x ∈ xs) (run : xs.foldlM f start = .ok last)
    (others : ∀ y before after, y ≠ x → Visits f xs start y before → f before y = .ok after →
      view after = view before) :
    ∃ before after, Visits f xs start x before ∧ f before x = .ok after ∧ view before = view start ∧
      view last = view after ∧
      ∀ weight : β → α → Nat, (∀ y ∈ xs, ∀ acc, y ≠ x → weight acc y = 0) →
        tally f weight start xs = weight before x := by
  have along : ∀ (part done rest : List α) (before after : β), xs = done ++ part ++ rest → x ∉ part →
      done.foldlM f start = .ok before → part.foldlM f before = .ok after → view after = view before := by
    intro part
    induction part with
    | nil =>
      intro done rest before after _ _ _ run
      cases run
      rfl
    | cons y part ih =>
      intro done rest before after split absent earlier run
      rw [List.foldlM_cons] at run
      obtain ⟨next, step, run⟩ := bind_ok run
      have here : Visits f xs start y before := ⟨done, part ++ rest, by simp [split], earlier⟩
      have kept := others y before next (fun same => absent (same ▸ List.mem_cons_self)) here step
      refine (ih (done ++ [y]) rest next after (by simp [split]) ?_ ((foldlM_snoc earlier y).trans step) run).trans kept
      exact fun later => absent (List.mem_cons_of_mem _ later)
  obtain ⟨done, rest, rfl⟩ := List.append_of_mem member
  obtain ⟨-, late, apart⟩ := List.nodup_append.mp once
  have early : x ∉ done := fun earlier => apart x earlier x List.mem_cons_self rfl
  have late : x ∉ rest := (List.nodup_cons.mp late).1
  rw [List.foldlM_append] at run
  obtain ⟨before, begun, run⟩ := bind_ok run
  rw [List.foldlM_cons] at run
  obtain ⟨after, step, run⟩ := bind_ok run
  refine ⟨before, after, ⟨done, rest, rfl, begun⟩, step, ?_, ?_, ?_⟩
  · exact along done [] (x :: rest) start before rfl early rfl begun
  · exact along rest (done ++ [x]) [] after last (by simp) late ((foldlM_snoc begun x).trans step) run
  · intro weight none
    have before' : tally f weight start done = 0 :=
      tally_zero (fun y earlier acc => none y (List.mem_append_left _ earlier) acc fun same => early (same ▸ earlier)) _
    have after' : tally f weight after rest = 0 :=
      tally_zero (fun y later acc => none y (List.mem_append_right _ (List.mem_cons_of_mem _ later)) acc
        fun same => late (same ▸ later)) _
    rw [tally_append begun, tally, step, before']
    dsimp only
    rw [after', Nat.zero_add, Nat.add_zero]

/-- The loop without rollback: what was done before the exception stays done. -/
def sweep (f : β → α → Except ε β) : β → List α → β × Except ε Unit
  | acc, [] => (acc, .ok ())
  | acc, x :: xs =>
    match f acc x with
    | .ok next => sweep f next xs
    | .error e => (acc, .error e)

theorem sweep_cases (f : β → α → Except ε β) (start : β) (xs : List α) :
    (∃ last, xs.foldlM f start = .ok last ∧ sweep f start xs = (last, .ok ())) ∨
    ∃ done x rest acc e, xs = done ++ x :: rest ∧ done.foldlM f start = .ok acc ∧ f acc x = .error e ∧
      sweep f start xs = (acc, .error e) := by
  induction xs generalizing start with
  | nil => exact .inl ⟨start, rfl, rfl⟩
  | cons x xs ih =>
    cases step : f start x with
    | error e => exact .inr ⟨[], x, xs, start, e, rfl, rfl, step, by rw [sweep, step]⟩
    | ok next =>
      rcases ih next with ⟨last, run, swept⟩ | ⟨done, y, rest, acc, e, split, run, stop, swept⟩
      · exact .inl ⟨last, by rw [List.foldlM_cons, step]; exact run, by rw [sweep, step]; exact swept⟩
      · refine .inr ⟨x :: done, y, rest, acc, e, by rw [split]; rfl, ?_, stop, by rw [sweep, step]; exact swept⟩
        rw [List.foldlM_cons, step]
        exact run

/-- A check that does not depend on the state of the loop can be made beforehand. -/
theorem foldlM_guarded {check : α → Except ε Unit} {f : β → α → Except ε β} {acc last : β} :
    xs.foldlM (fun acc x => do check x; f acc x) acc = .ok last ↔
      (∀ x ∈ xs, check x = .ok ()) ∧ xs.foldlM f acc = .ok last := by
  induction xs generalizing acc with
  | nil => exact ⟨fun run => ⟨nofun, run⟩, fun both => both.2⟩
  | cons x xs ih =>
    rw [List.foldlM_cons, List.foldlM_cons, List.forall_mem_cons]
    constructor
    · intro run
      obtain ⟨next, head, tail⟩ := bind_ok run
      obtain ⟨_, passes, step⟩ := bind_ok head
      obtain ⟨checks, rest⟩ := ih.mp tail
      exact ⟨⟨passes, checks⟩, by rw [step]; exact rest⟩
    · rintro ⟨⟨passes, checks⟩, run⟩
      obtain ⟨next, step, rest⟩ := bind_ok run
      rw [passes]
      show (f acc x >>= fun next => xs.foldlM (fun acc x => do check x; f acc x) next) = .ok last
      rw [step]
      exact ih.mpr ⟨checks, rest⟩

/-- Two loops whose bodies agree on paired elements end alike. -/
theorem foldlM_eq {γ : Type} {R : α → β → Prop} {ys : List β} (each : List.Forall₂ R xs ys)
    {f : γ → α → Except ε γ} {g : γ → β → Except ε γ}
    (agree : ∀ x ∈ xs, ∀ y acc next next', R x y → f acc x = .ok next → g acc y = .ok next' → next = next')
    {acc last last' : γ} (run : xs.foldlM f acc = .ok last) (run' : ys.foldlM g acc = .ok last') : last = last' := by
  induction each generalizing acc with
  | nil => exact Except.ok.inj (run.symm.trans run')
  | @cons x y _ _ related _ ih =>
    rw [List.foldlM_cons] at run run'
    obtain ⟨next, head, tail⟩ := bind_ok run
    obtain ⟨next', head', tail'⟩ := bind_ok run'
    obtain rfl := agree x List.mem_cons_self y acc next next' related head head'
    exact ih (fun x member => agree x (List.mem_cons_of_mem _ member)) tail tail'

theorem mapM_forall₂ {f : α → Except ε β} {ys : List β} (run : xs.mapM f = .ok ys) :
    List.Forall₂ (fun x y => f x = .ok y) xs ys := by
  induction xs generalizing ys with
  | nil =>
    obtain rfl := Except.ok.inj run
    exact .nil
  | cons x xs ih =>
    rw [List.mapM_cons] at run
    obtain ⟨y, first, run⟩ := bind_ok run
    obtain ⟨rest, tail, last⟩ := bind_ok run
    obtain rfl := Except.ok.inj last
    exact .cons first (ih tail)

theorem mapM_some {f : α → Option β} {ys : List β} (run : xs.mapM f = some ys) :
    List.Forall₂ (fun x y => f x = some y) xs ys := by
  induction xs generalizing ys with
  | nil =>
    obtain rfl := Option.some.inj run
    exact .nil
  | cons x xs ih =>
    rw [List.mapM_cons] at run
    obtain ⟨y, first, run⟩ := Option.bind_eq_some_iff.mp run
    obtain ⟨rest, tail, last⟩ := Option.bind_eq_some_iff.mp run
    obtain rfl := Option.some.inj last
    exact .cons first (ih tail)

theorem forM_ok {f : α → Except ε Unit} (run : xs.forM f = .ok ()) : ∀ x ∈ xs, f x = .ok () := by
  induction xs with
  | nil => nofun
  | cons first rest ih =>
    obtain ⟨_, head, run⟩ := bind_ok (show (f first >>= fun _ => rest.forM f) = .ok () from run)
    intro x member
    rcases List.mem_cons.mp member with rfl | later
    · exact head
    · exact ih run x later

/-! ### Postconditions

`fails` says whether the computation may end with an exception: `True` for partial correctness,
`False` for total correctness. -/

def Post (fails : Prop) (x : Except ε α) (Q : α → Prop) : Prop :=
  match x with
  | .ok a => Q a
  | .error _ => fails

namespace Post

variable {fails : Prop} {x : Except ε α} {Q : α → Prop}

theorem ok {a : α} (holds : Q a) : Post fails (.ok a : Except ε α) Q := holds

theorem of_ok (holds : ∀ a, x = .ok a → Q a) : Post True x Q := by
  cases x with
  | error => trivial
  | ok a => exact holds a rfl

theorem elim (post : Post fails x Q) {a : α} (result : x = .ok a) : Q a := by
  subst result
  exact post

theorem total (post : Post False x Q) : ∃ a, x = .ok a ∧ Q a := by
  cases x with
  | error => exact False.elim post
  | ok a => exact ⟨a, rfl, post⟩

theorem mono {R : α → Prop} (post : Post fails x Q) (weaken : ∀ a, Q a → R a) : Post fails x R := by
  cases x with
  | error => exact post
  | ok a => exact weaken a post

theorem bind {f : α → Except ε β} {R : β → Prop} (post : Post fails x Q)
    (rest : ∀ a, x = .ok a → Q a → Post fails (f a) R) : Post fails (x >>= f) R := by
  cases x with
  | error => exact post
  | ok a => exact rest a rfl post

theorem map {f : α → β} {R : β → Prop} (post : Post fails x fun a => R (f a)) : Post fails (x.map f) R := by
  cases x with
  | error => exact post
  | ok a => exact post

/-- A loop each of whose steps, where it comes to it, keeps `I`. -/
theorem foldlM {f : β → α → Except ε β} {I : β → Prop} {start : β} (begins : I start)
    (step : ∀ x before, Visits f xs start x before → I before → Post fails (f before x) I) :
    Post fails (xs.foldlM f start) I := by
  have along : ∀ (rest done : List α) (before : β), xs = done ++ rest → done.foldlM f start = .ok before →
      I before → Post fails (rest.foldlM f before) I := by
    intro rest
    induction rest with
    | nil => exact fun _ before _ _ holds => Post.ok holds
    | cons x rest ih =>
      intro done before split earlier holds
      rw [List.foldlM_cons]
      refine Post.bind (step x before ⟨done, rest, split, earlier⟩ holds) fun after next kept => ?_
      exact ih (done ++ [x]) after (by simp [split]) ((foldlM_snoc earlier x).trans next) kept
  exact along xs [] start rfl rfl begins

end Post

end LasecSimul.Lib.Fallible
