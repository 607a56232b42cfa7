import LasecSimul.Lib.Fallible
import Mathlib

/-!
Substitution in the syntax trees of the calculus laboratory, against their value: a binder takes its body as a
function of the bound variable.
-/

namespace LasecSimul.Calculus

inductive Unary where
  | negate | sin | cos | tan | exp | abs | sqrt | ln | log
  deriving DecidableEq

inductive Binary where
  | add | subtract | multiply | divide | power | less | lessEqual | greater | greaterEqual
  deriving DecidableEq

/-- The heads with a `Limits` argument. -/
inductive Ranged where
  | integrate | sum | product
  deriving DecidableEq

/-- `Ast`, as the parser builds it, over the literals `N`. -/
inductive Ast (N : Type) where
  | number (value : N)
  | symbol (name : String)
  | unary (head : Unary) (a : Ast N)
  | binary (head : Binary) (a b : Ast N)
  | piecewise (condition whenTrue whenFalse : Ast N)
  | call (name : String) (a : Ast N)
  | ranged (head : Ranged) (body : Ast N) (v : String) (lo hi : Ast N)
  | derivative (body : Ast N) (v : String)
  | limit (body : Ast N) (v : String) (target : Ast N) (side : Int)
  deriving DecidableEq

variable {N : Type}

/-- `dependsOn`: the variable of a derivative stays free. -/
def dependsOn : Ast N → String → Bool
  | .number _, _ => false
  | .symbol name, v => name == v
  | .unary _ a, v => dependsOn a v
  | .binary _ a b, v => dependsOn a v || dependsOn b v
  | .piecewise condition whenTrue whenFalse, v =>
    dependsOn condition v || dependsOn whenTrue v || dependsOn whenFalse v
  | .call _ a, v => dependsOn a v
  | .ranged _ body bound lo hi, v => (bound != v && dependsOn body v) || (dependsOn lo v || dependsOn hi v)
  | .derivative body bound, v => dependsOn body v || bound == v
  | .limit body bound target _, v => (bound != v && dependsOn body v) || dependsOn target v

/-- `substitute`, without the optional `differentiate`. -/
def substitute (ast : Ast N) (name : String) (value : Ast N) : Except String (Ast N) :=
  match ast with
  | .number x => .ok (.number x)
  | .symbol s => .ok (if s = name then value else .symbol s)
  | .unary head a => do
    return .unary head (← substitute a name value)
  | .binary head a b => do
    return .binary head (← substitute a name value) (← substitute b name value)
  | .piecewise condition whenTrue whenFalse => do
    return .piecewise (← substitute condition name value) (← substitute whenTrue name value)
      (← substitute whenFalse name value)
  | .call f a => do
    return .call f (← substitute a name value)
  | .ranged head body v lo hi =>
    (if v = name then .ok body else substitute body name value) >>= fun body => do
      return .ranged head body v (← substitute lo name value) (← substitute hi name value)
  | .derivative body v =>
    if v = name then .error "substituir a variável de uma derivada exige derivar primeiro"
    else do return .derivative (← substitute body name value) v
  | .limit body v target side =>
    (if v = name then .ok body else substitute body name value) >>= fun body => do
      return .limit body v (← substitute target name value) side

/-- What the heads compute on values; a binder takes its body as a function. -/
structure Meaning (N K : Type) where
  number : N → K
  unary : Unary → K → K
  binary : Binary → K → K → K
  piecewise : K → K → K → K
  call : String → K → K
  ranged : Ranged → (K → K) → K → K → K
  derivative : (K → K) → K → K
  limit : (K → K) → K → Int → K

abbrev Env (K : Type) := String → K

variable {K : Type}

def Env.bind (env : Env K) (v : String) (x : K) : Env K := fun name => if name = v then x else env name

namespace Meaning

def value (m : Meaning N K) (env : Env K) : Ast N → K
  | .number x => m.number x
  | .symbol name => env name
  | .unary head a => m.unary head (m.value env a)
  | .binary head a b => m.binary head (m.value env a) (m.value env b)
  | .piecewise condition whenTrue whenFalse =>
    m.piecewise (m.value env condition) (m.value env whenTrue) (m.value env whenFalse)
  | .call f a => m.call f (m.value env a)
  | .ranged head body v lo hi => m.ranged head (fun x => m.value (env.bind v x) body) (m.value env lo) (m.value env hi)
  | .derivative body v => m.derivative (fun x => m.value (env.bind v x) body) (env v)
  | .limit body v target side => m.limit (fun x => m.value (env.bind v x) body) (m.value env target) side

end Meaning

namespace Env

variable {env : Env K} {v name : String}

@[simp] theorem bind_self (x : K) : env.bind v x v = x := if_pos rfl

theorem bind_of_ne (x : K) (apart : name ≠ v) : env.bind v x name = env name := if_neg apart

theorem bind_bind (x y : K) : (env.bind v x).bind v y = env.bind v y := by
  funext name
  unfold bind
  split <;> rfl

theorem bind_comm (x y : K) (apart : v ≠ name) : (env.bind name x).bind v y = (env.bind v y).bind name x := by
  funext other
  unfold bind
  by_cases here : other = v
  · subst here
    rw [if_pos rfl, if_neg apart, if_pos rfl]
  · rw [if_neg here, if_neg here]

end Env

/-- Only the free variables count. -/
theorem value_congr (m : Meaning N K) {ast : Ast N} : ∀ {env env' : Env K},
    (∀ x, dependsOn ast x = true → env x = env' x) → m.value env ast = m.value env' ast := by
  have inside {body : Ast N} {v : String} {env env' : Env K}
      (ih : ∀ {env env' : Env K}, (∀ x, dependsOn body x = true → env x = env' x) → m.value env body = m.value env' body)
      (same : ∀ x, v ≠ x → dependsOn body x = true → env x = env' x) :
      (fun x => m.value (env.bind v x) body) = fun x => m.value (env'.bind v x) body := by
    funext x
    apply ih
    intro name free
    by_cases here : name = v
    · rw [here, Env.bind_self, Env.bind_self]
    · rw [Env.bind_of_ne x here, Env.bind_of_ne x here, same name (Ne.symm here) free]
  induction ast with
  | number => exact fun _ => rfl
  | symbol name => exact fun same => same name (beq_self_eq_true name)
  | unary _ a ih | call _ a ih =>
    intro env env' same
    simp only [Meaning.value, ih same]
  | binary _ a b iha ihb =>
    intro env env' same
    simp only [dependsOn, Bool.or_eq_true] at same
    simp only [Meaning.value, iha fun x free => same x (.inl free), ihb fun x free => same x (.inr free)]
  | piecewise a b c iha ihb ihc =>
    intro env env' same
    simp only [dependsOn, Bool.or_eq_true] at same
    simp only [Meaning.value, iha fun x free => same x (.inl (.inl free)), ihb fun x free => same x (.inl (.inr free)),
      ihc fun x free => same x (.inr free)]
  | ranged _ body v lo hi ih ihlo ihhi =>
    intro env env' same
    simp only [dependsOn, Bool.or_eq_true, Bool.and_eq_true, bne_iff_ne] at same
    simp only [Meaning.value, inside ih fun x apart free => same x (.inl ⟨apart, free⟩),
      ihlo fun x free => same x (.inr (.inl free)), ihhi fun x free => same x (.inr (.inr free))]
  | derivative body v ih =>
    intro env env' same
    simp only [dependsOn, Bool.or_eq_true, beq_iff_eq] at same
    simp only [Meaning.value, inside ih fun x _ free => same x (.inl free), same v (.inr rfl)]
  | limit body v target _ ih iht =>
    intro env env' same
    simp only [dependsOn, Bool.or_eq_true, Bool.and_eq_true, bne_iff_ne] at same
    simp only [Meaning.value, inside ih fun x apart free => same x (.inl ⟨apart, free⟩),
      iht fun x free => same x (.inr free)]

/-- No node that `substitute` enters over a free `name` has its variable free in `value`, and none is the derivative
with respect to `name`. -/
def CaptureFree (name : String) (value : Ast N) : Ast N → Prop
  | .number _ | .symbol _ => True
  | .unary _ a | .call _ a => CaptureFree name value a
  | .binary _ a b => CaptureFree name value a ∧ CaptureFree name value b
  | .piecewise a b c => CaptureFree name value a ∧ CaptureFree name value b ∧ CaptureFree name value c
  | .ranged _ body v lo hi =>
    (v ≠ name → CaptureFree name value body ∧ ¬(dependsOn body name ∧ dependsOn value v)) ∧
      CaptureFree name value lo ∧ CaptureFree name value hi
  | .derivative body v =>
    v ≠ name ∧ CaptureFree name value body ∧ ¬(dependsOn body name ∧ dependsOn value v)
  | .limit body v target _ =>
    (v ≠ name → CaptureFree name value body ∧ ¬(dependsOn body name ∧ dependsOn value v)) ∧
      CaptureFree name value target

variable {name : String} {value : Ast N}

/-- `result` has the value of `ast` with `name` bound to the value of `value`. -/
def Substituted (name : String) (value ast result : Ast N) : Prop :=
  ∀ (K : Type) (m : Meaning N K) (env : Env K), m.value env result = m.value (env.bind name (m.value env value)) ast

theorem Substituted.under {body result : Ast N} {v : String} (apart : v ≠ name)
    (free : ¬(dependsOn body name ∧ dependsOn value v)) (sound : Substituted name value body result)
    (m : Meaning N K) (env : Env K) (x : K) :
    m.value (env.bind v x) result = m.value ((env.bind name (m.value env value)).bind v x) body := by
  rw [sound K m (env.bind v x), Env.bind_comm _ _ apart]
  apply value_congr
  intro y used
  by_cases here : y = name
  · subst here
    rw [Env.bind_self, Env.bind_self]
    exact value_congr m fun z inside => Env.bind_of_ne x fun same => free ⟨used, same ▸ inside⟩
  · rw [Env.bind_of_ne _ here, Env.bind_of_ne _ here]

theorem body_substituted {body : Ast N} {v : String}
    (free : v ≠ name → CaptureFree name value body ∧ ¬(dependsOn body name ∧ dependsOn value v))
    (ih : CaptureFree name value body → ∃ r, substitute body name value = .ok r ∧ Substituted name value body r) :
    ∃ r, (if v = name then .ok body else substitute body name value) = .ok r ∧
      ∀ (K : Type) (m : Meaning N K) (env : Env K) (x : K),
        m.value (env.bind v x) r = m.value ((env.bind name (m.value env value)).bind v x) body := by
  by_cases here : v = name
  · subst here
    exact ⟨body, if_pos rfl, fun K m env x => by rw [Env.bind_bind]⟩
  · obtain ⟨inner, outer⟩ := free here
    obtain ⟨r, computed, sound⟩ := ih inner
    exact ⟨r, by rw [if_neg here, computed], fun K m env x => sound.under here outer m env x⟩

theorem substitute_sound {ast : Ast N} :
    CaptureFree name value ast → ∃ r, substitute ast name value = .ok r ∧ Substituted name value ast r := by
  induction ast with
  | number x => exact fun _ => ⟨_, rfl, fun _ _ _ => rfl⟩
  | symbol s =>
    refine fun _ => ⟨_, rfl, fun K m env => ?_⟩
    by_cases here : s = name
    · subst here
      rw [if_pos rfl, Meaning.value, Env.bind_self]
    · rw [if_neg here, Meaning.value, Meaning.value, Env.bind_of_ne _ here]
  | unary _ a ih | call _ a ih =>
    intro free
    obtain ⟨r, computed, sound⟩ := ih free
    refine ⟨_, by rw [substitute, computed]; rfl, fun K m env => ?_⟩
    simp only [Meaning.value, sound K m env]
  | binary _ a b iha ihb =>
    intro free
    obtain ⟨ra, computedA, soundA⟩ := iha free.1
    obtain ⟨rb, computedB, soundB⟩ := ihb free.2
    refine ⟨_, by rw [substitute, computedA, computedB]; rfl, fun K m env => ?_⟩
    simp only [Meaning.value, soundA K m env, soundB K m env]
  | piecewise a b c iha ihb ihc =>
    intro free
    obtain ⟨ra, computedA, soundA⟩ := iha free.1
    obtain ⟨rb, computedB, soundB⟩ := ihb free.2.1
    obtain ⟨rc, computedC, soundC⟩ := ihc free.2.2
    refine ⟨_, by rw [substitute, computedA, computedB, computedC]; rfl, fun K m env => ?_⟩
    simp only [Meaning.value, soundA K m env, soundB K m env, soundC K m env]
  | ranged _ body v lo hi ih ihlo ihhi =>
    intro free
    obtain ⟨r, computed, sound⟩ := body_substituted free.1 ih
    obtain ⟨rlo, computedLo, soundLo⟩ := ihlo free.2.1
    obtain ⟨rhi, computedHi, soundHi⟩ := ihhi free.2.2
    refine ⟨_, by rw [substitute, computed, computedLo, computedHi]; rfl, fun K m env => ?_⟩
    simp only [Meaning.value, sound K m env, soundLo K m env, soundHi K m env]
  | derivative body v ih =>
    intro free
    obtain ⟨r, computed, sound⟩ := ih free.2.1
    refine ⟨_, by rw [substitute, if_neg free.1, computed]; rfl, fun K m env => ?_⟩
    simp only [Meaning.value, sound.under free.1 free.2.2 m env, Env.bind_of_ne _ free.1]
  | limit body v target _ ih iht =>
    intro free
    obtain ⟨r, computed, sound⟩ := body_substituted free.1 ih
    obtain ⟨rt, computedT, soundT⟩ := iht free.2
    refine ⟨_, by rw [substitute, computed, computedT]; rfl, fun K m env => ?_⟩
    simp only [Meaning.value, sound K m env, soundT K m env]

/-! ### Counting occurrences -/

/-- The value in this reading is the number of free occurrences, weighted by the environment. -/
def occurrences : Meaning N ℕ where
  number _ := 0
  unary _ a := a
  binary _ a b := a + b
  piecewise a b c := a + b + c
  call _ a := a
  ranged _ f a b := f 0 + (a + b)
  derivative f x := f 0 + x
  limit f a _ := f 0 + a

def count (env : Env ℕ) (ast : Ast N) : ℕ := occurrences.value env ast

section Count

variable (env : Env ℕ) (body a b c : Ast N) (v : String)

theorem count_symbol : count env (.symbol v : Ast N) = env v := rfl

theorem count_binary (head : Binary) : count env (.binary head a b) = count env a + count env b := rfl

theorem count_piecewise : count env (.piecewise a b c) = count env a + count env b + count env c := rfl

theorem count_ranged (head : Ranged) :
    count env (.ranged head body v a b) = count (env.bind v 0) body + (count env a + count env b) := rfl

theorem count_derivative : count env (.derivative body v) = count (env.bind v 0) body + env v := rfl

theorem count_limit (side : Int) : count env (.limit body v a side) = count (env.bind v 0) body + count env a := rfl

end Count

theorem count_mono {ast : Ast N} : ∀ {env env' : Env ℕ}, (∀ x, env x ≤ env' x) →
    count env ast ≤ count env' ast ∧
      ∀ x, dependsOn ast x = true → env x < env' x → count env ast < count env' ast := by
  have bound {env env' : Env ℕ} (v : String) (le : ∀ x, env x ≤ env' x) : ∀ x, env.bind v 0 x ≤ env'.bind v 0 x := by
    intro x
    unfold Env.bind
    split
    · exact le_rfl
    · exact le x
  have kept {env env' : Env ℕ} {v x : String} (apart : v ≠ x) (lt : env x < env' x) :
      env.bind v 0 x < env'.bind v 0 x := by
    rwa [Env.bind_of_ne 0 (Ne.symm apart), Env.bind_of_ne 0 (Ne.symm apart)]
  induction ast with
  | number => exact fun _ => ⟨le_rfl, nofun⟩
  | symbol name =>
    intro env env' le
    refine ⟨le name, fun x free lt => ?_⟩
    rw [dependsOn, beq_iff_eq] at free
    exact free ▸ lt
  | unary _ a ih | call _ a ih => exact ih
  | binary _ a b iha ihb =>
    intro env env' le
    obtain ⟨leA, ltA⟩ := iha le
    obtain ⟨leB, ltB⟩ := ihb le
    rw [count_binary, count_binary]
    refine ⟨Nat.add_le_add leA leB, fun x free lt => ?_⟩
    rcases Bool.or_eq_true_iff.mp free with free | free
    · exact Nat.add_lt_add_of_lt_of_le (ltA x free lt) leB
    · exact Nat.add_lt_add_of_le_of_lt leA (ltB x free lt)
  | piecewise a b c iha ihb ihc =>
    intro env env' le
    obtain ⟨leA, ltA⟩ := iha le
    obtain ⟨leB, ltB⟩ := ihb le
    obtain ⟨leC, ltC⟩ := ihc le
    rw [count_piecewise, count_piecewise]
    refine ⟨Nat.add_le_add (Nat.add_le_add leA leB) leC, fun x free lt => ?_⟩
    simp only [dependsOn, Bool.or_eq_true] at free
    rcases free with (free | free) | free
    · have := ltA x free lt
      omega
    · have := ltB x free lt
      omega
    · have := ltC x free lt
      omega
  | ranged _ body v lo hi ih ihlo ihhi =>
    intro env env' le
    obtain ⟨leB, ltB⟩ := ih (bound v le)
    obtain ⟨leL, ltL⟩ := ihlo le
    obtain ⟨leH, ltH⟩ := ihhi le
    rw [count_ranged, count_ranged]
    refine ⟨Nat.add_le_add leB (Nat.add_le_add leL leH), fun x free lt => ?_⟩
    simp only [dependsOn, Bool.or_eq_true, Bool.and_eq_true, bne_iff_ne] at free
    rcases free with ⟨apart, free⟩ | free | free
    · have := ltB x free (kept apart lt)
      omega
    · have := ltL x free lt
      omega
    · have := ltH x free lt
      omega
  | derivative body v ih =>
    intro env env' le
    obtain ⟨leB, ltB⟩ := ih (bound v le)
    rw [count_derivative, count_derivative]
    refine ⟨Nat.add_le_add leB (le v), fun x free lt => ?_⟩
    simp only [dependsOn, Bool.or_eq_true, beq_iff_eq] at free
    by_cases here : v = x
    · exact Nat.add_lt_add_of_le_of_lt leB (here ▸ lt)
    · exact Nat.add_lt_add_of_lt_of_le (ltB x (free.resolve_right here) (kept here lt)) (le v)
  | limit body v target _ ih iht =>
    intro env env' le
    obtain ⟨leB, ltB⟩ := ih (bound v le)
    obtain ⟨leT, ltT⟩ := iht le
    rw [count_limit, count_limit]
    refine ⟨Nat.add_le_add leB leT, fun x free lt => ?_⟩
    simp only [dependsOn, Bool.or_eq_true, Bool.and_eq_true, bne_iff_ne] at free
    rcases free with ⟨apart, free⟩ | free
    · exact Nat.add_lt_add_of_lt_of_le (ltB x free (kept apart lt)) leT
    · exact Nat.add_lt_add_of_le_of_lt leB (ltT x free lt)

/-- Somewhere in `ast` a free `name` stands for less than `bound`. -/
def Misses (name : String) (value : Ast N) (env : Env ℕ) (bound : ℕ) (ast : Ast N) : Prop :=
  count env value < bound ∧ dependsOn ast name = true ∨
    (∀ x, dependsOn value x = true → env x = 0 → count env value < bound) ∧ ¬CaptureFree name value ast

theorem bind_zero_le (env : Env ℕ) (v x : String) : env.bind v 0 x ≤ env x := by
  unfold Env.bind
  split
  · exact Nat.zero_le _
  · exact le_rfl

theorem Misses.under {env : Env ℕ} {bound : ℕ} {v : String} {body : Ast N} (le : count env value ≤ bound)
    (misses : count env value < bound ∧ dependsOn body name = true ∨
      (∀ x, dependsOn value x = true → env x = 0 → count env value < bound) ∧
        (CaptureFree name value body → dependsOn body name = true ∧ dependsOn value v = true)) :
    Misses name value (env.bind v 0) bound body := by
  obtain ⟨less, fewer⟩ : count (env.bind v 0) value ≤ count env value ∧ _ :=
    count_mono (bind_zero_le env v)
  have captured (zero : ∀ x, dependsOn value x = true → env x = 0 → count env value < bound)
      (free : dependsOn value v = true) : count (env.bind v 0) value < bound := by
    by_cases here : env v = 0
    · exact less.trans_lt (zero v free here)
    · exact (fewer v free (by rw [Env.bind_self]; exact Nat.pos_of_ne_zero here)).trans_le le
  rcases misses with ⟨lt, free⟩ | ⟨zero, captures⟩
  · exact .inl ⟨less.trans_lt lt, free⟩
  · by_cases inner : CaptureFree name value body
    · exact .inl ⟨captured zero (captures inner).2, (captures inner).1⟩
    · refine .inr ⟨fun x free none => ?_, inner⟩
      by_cases here : x = v
      · exact captured zero (here ▸ free)
      · exact less.trans_lt (zero x free (by rwa [Env.bind_of_ne 0 here] at none))

theorem Misses.part {env : Env ℕ} {bound : ℕ} {ast : Ast N} (parts : List (Ast N)) (misses : Misses name value env bound ast)
    (depends : dependsOn ast name = true → ∃ a ∈ parts, dependsOn a name = true)
    (free : (∀ a ∈ parts, CaptureFree name value a) → CaptureFree name value ast) :
    ∃ a ∈ parts, Misses name value env bound a := by
  rcases misses with ⟨lt, used⟩ | ⟨zero, captured⟩
  · obtain ⟨a, member, used⟩ := depends used
    exact ⟨a, member, .inl ⟨lt, used⟩⟩
  · by_contra none
    exact captured (free fun a member => by_contra fun here => none ⟨a, member, .inr ⟨zero, here⟩⟩)

theorem Misses.binder {env : Env ℕ} {bound : ℕ} {ast : Ast N} (body : Ast N) (v : String) (limits : List (Ast N))
    (le : count env value ≤ bound) (misses : Misses name value env bound ast)
    (depends : dependsOn ast name = true → v ≠ name ∧ dependsOn body name = true ∨ ∃ a ∈ limits, dependsOn a name = true)
    (free : (v ≠ name → CaptureFree name value body ∧ ¬(dependsOn body name ∧ dependsOn value v)) →
      (∀ a ∈ limits, CaptureFree name value a) → CaptureFree name value ast) :
    v ≠ name ∧ Misses name value (env.bind v 0) bound body ∨ ∃ a ∈ limits, Misses name value env bound a := by
  rcases misses with ⟨lt, used⟩ | ⟨zero, captured⟩
  · rcases depends used with ⟨apart, used⟩ | ⟨a, member, used⟩
    · exact .inl ⟨apart, .under le (.inl ⟨lt, used⟩)⟩
    · exact .inr ⟨a, member, .inl ⟨lt, used⟩⟩
  · by_contra none
    refine captured (free (fun apart => ?_) fun a member => by_contra fun here =>
      none (.inr ⟨a, member, .inr ⟨zero, here⟩⟩))
    by_contra inner
    refine none (.inl ⟨apart, .under le (.inr ⟨zero, fun here => ?_⟩)⟩)
    exact by_contra fun clear => inner ⟨here, clear⟩

theorem substitute_misses {ast : Ast N} : ∀ {env : Env ℕ} {bound : ℕ} {r : Ast N},
    count env value ≤ bound → substitute ast name value = .ok r →
    count env r ≤ count (env.bind name bound) ast ∧
      (Misses name value env bound ast → count env r < count (env.bind name bound) ast) := by
  have inside {body r : Ast N} {v : String} {env : Env ℕ} {bound : ℕ} (le : count env value ≤ bound)
      (ih : ∀ {env : Env ℕ} {bound : ℕ} {r : Ast N}, count env value ≤ bound →
        substitute body name value = .ok r →
        count env r ≤ count (env.bind name bound) body ∧
          (Misses name value env bound body → count env r < count (env.bind name bound) body))
      (computed : (if v = name then .ok body else substitute body name value) = .ok r) :
      count (env.bind v 0) r ≤ count ((env.bind name bound).bind v 0) body ∧
        (v ≠ name → Misses name value (env.bind v 0) bound body →
          count (env.bind v 0) r < count ((env.bind name bound).bind v 0) body) := by
    by_cases here : v = name
    · rw [if_pos here] at computed
      cases computed
      rw [← here, Env.bind_bind]
      exact ⟨le_rfl, fun apart => absurd rfl apart⟩
    · rw [if_neg here] at computed
      rw [Env.bind_comm _ _ here]
      obtain ⟨most, fewer⟩ := ih ((count_mono (bind_zero_le env v)).1.trans le) computed
      exact ⟨most, fun _ => fewer⟩
  induction ast with
  | number =>
    intro env bound r _ computed
    cases computed
    exact ⟨le_rfl, fun misses => misses.elim (fun h => nomatch h.2) fun h => absurd trivial h.2⟩
  | symbol s =>
    intro env bound r le computed
    cases computed
    by_cases here : s = name
    · subst here
      rw [if_pos rfl, count_symbol, Env.bind_self]
      exact ⟨le, fun misses => misses.elim And.left fun h => absurd trivial h.2⟩
    · rw [if_neg here, count_symbol, count_symbol, Env.bind_of_ne _ here]
      refine ⟨le_rfl, fun misses => misses.elim (fun h => ?_) fun h => absurd trivial h.2⟩
      exact absurd (eq_of_beq h.2) here
  | unary _ a ih | call _ a ih =>
    intro env bound r le computed
    obtain ⟨ra, computedA, computed⟩ := Lib.Fallible.bind_ok computed
    cases computed
    have inner := ih le computedA
    exact inner
  | binary _ a b iha ihb =>
    intro env bound r le computed
    obtain ⟨ra, computedA, computed⟩ := Lib.Fallible.bind_ok computed
    obtain ⟨rb, computedB, computed⟩ := Lib.Fallible.bind_ok computed
    cases computed
    obtain ⟨leA, ltA⟩ := iha le computedA
    obtain ⟨leB, ltB⟩ := ihb le computedB
    rw [count_binary, count_binary]
    refine ⟨Nat.add_le_add leA leB, fun misses => ?_⟩
    obtain ⟨part, member, here⟩ := misses.part [a, b] (by simp [dependsOn]) (by simp [CaptureFree])
    rcases List.mem_pair.mp member with rfl | rfl
    · exact Nat.add_lt_add_of_lt_of_le (ltA here) leB
    · exact Nat.add_lt_add_of_le_of_lt leA (ltB here)
  | piecewise a b c iha ihb ihc =>
    intro env bound r le computed
    obtain ⟨ra, computedA, computed⟩ := Lib.Fallible.bind_ok computed
    obtain ⟨rb, computedB, computed⟩ := Lib.Fallible.bind_ok computed
    obtain ⟨rc, computedC, computed⟩ := Lib.Fallible.bind_ok computed
    cases computed
    obtain ⟨leA, ltA⟩ := iha le computedA
    obtain ⟨leB, ltB⟩ := ihb le computedB
    obtain ⟨leC, ltC⟩ := ihc le computedC
    rw [count_piecewise, count_piecewise]
    refine ⟨Nat.add_le_add (Nat.add_le_add leA leB) leC, fun misses => ?_⟩
    obtain ⟨part, member, here⟩ := misses.part [a, b, c] (by simp [dependsOn, or_assoc]) (by simp [CaptureFree])
    simp only [List.mem_cons, List.not_mem_nil, or_false] at member
    rcases member with rfl | rfl | rfl
    · exact Nat.add_lt_add_of_lt_of_le (Nat.add_lt_add_of_lt_of_le (ltA here) leB) leC
    · exact Nat.add_lt_add_of_lt_of_le (Nat.add_lt_add_of_le_of_lt leA (ltB here)) leC
    · exact Nat.add_lt_add_of_le_of_lt (Nat.add_le_add leA leB) (ltC here)
  | ranged _ body v lo hi ih ihlo ihhi =>
    intro env bound r le computed
    obtain ⟨rb, computedB, computed⟩ := Lib.Fallible.bind_ok computed
    obtain ⟨rlo, computedL, computed⟩ := Lib.Fallible.bind_ok computed
    obtain ⟨rhi, computedH, computed⟩ := Lib.Fallible.bind_ok computed
    cases computed
    obtain ⟨leB, ltB⟩ := inside le ih computedB
    obtain ⟨leL, ltL⟩ := ihlo le computedL
    obtain ⟨leH, ltH⟩ := ihhi le computedH
    rw [count_ranged, count_ranged]
    refine ⟨Nat.add_le_add leB (Nat.add_le_add leL leH), fun misses => ?_⟩
    rcases misses.binder body v [lo, hi] le (by simp [dependsOn]) fun inner limits =>
      ⟨inner, limits lo (by simp), limits hi (by simp)⟩ with
      ⟨apart, here⟩ | ⟨a, member, here⟩
    · exact Nat.add_lt_add_of_lt_of_le (ltB apart here) (Nat.add_le_add leL leH)
    · rcases List.mem_pair.mp member with rfl | rfl
      · exact Nat.add_lt_add_of_le_of_lt leB (Nat.add_lt_add_of_lt_of_le (ltL here) leH)
      · exact Nat.add_lt_add_of_le_of_lt leB (Nat.add_lt_add_of_le_of_lt leL (ltH here))
  | derivative body v ih =>
    intro env bound r le computed
    rw [substitute] at computed
    split at computed
    · cases computed
    · rename_i apart
      obtain ⟨rb, computedB, computed⟩ := Lib.Fallible.bind_ok computed
      cases computed
      obtain ⟨leB, ltB⟩ := inside le ih (by rwa [if_neg apart])
      have point : env v = env.bind name bound v := (Env.bind_of_ne bound apart).symm
      rw [count_derivative, count_derivative]
      refine ⟨Nat.add_le_add leB point.le, fun misses => Nat.add_lt_add_of_lt_of_le (ltB apart ?_) point.le⟩
      rcases misses.binder body v [] le (by simp [dependsOn, apart]) fun inner _ => ⟨apart, inner apart⟩ with
        here | here
      · exact here.2
      · exact absurd here nofun
  | limit body v target _ ih iht =>
    intro env bound r le computed
    obtain ⟨rb, computedB, computed⟩ := Lib.Fallible.bind_ok computed
    obtain ⟨rt, computedT, computed⟩ := Lib.Fallible.bind_ok computed
    cases computed
    obtain ⟨leB, ltB⟩ := inside le ih computedB
    obtain ⟨leT, ltT⟩ := iht le computedT
    rw [count_limit, count_limit]
    refine ⟨Nat.add_le_add leB leT, fun misses => ?_⟩
    rcases misses.binder body v [target] le (by simp [dependsOn]) fun inner limits =>
      ⟨inner, limits target (by simp)⟩ with
      ⟨apart, here⟩ | ⟨a, member, here⟩
    · exact Nat.add_lt_add_of_lt_of_le (ltB apart here) leT
    · exact Nat.add_lt_add_of_le_of_lt leB (ltT (List.mem_singleton.mp member ▸ here))

/-- A function of the user, whose calls the parser expands. -/
structure UserFunction (N : Type) where
  param : String
  ast : Ast N

def UserFunction.expand (fn : UserFunction N) (a : Ast N) : Except String (Ast N) := substitute fn.ast fn.param a

/-- The usual reading of integers, products and finite sums. -/
structure Meaning.Sums (m : Meaning ℤ ℤ) : Prop where
  number : ∀ x, m.number x = x
  multiply : ∀ a b, m.binary .multiply a b = a * b
  sum : ∀ f lo hi, m.ranged .sum f lo hi = ∑ k ∈ Finset.Icc lo hi, f k

end LasecSimul.Calculus
