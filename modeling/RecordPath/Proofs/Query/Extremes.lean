import RecordPath.Proofs.Decimal.Integers
import RecordPath.Query.Run

namespace RecordPath

namespace AggregateFunction

def rank (f : AggregateFunction) (n : Int) : Int :=
  match f with
  | .max => -n
  | _ => n

theorem rank_nearestInt_le {f : AggregateFunction} {n n' : Int} (h : f.rank n ≤ f.rank n') :
    f.rank (Double.nearestInt n) ≤ f.rank (Double.nearestInt n') := by
  cases f
  case max => exact Int.neg_le_neg (Double.nearestInt_le_nearestInt (Int.le_of_neg_le_neg h))
  all_goals exact Double.nearestInt_le_nearestInt h

theorem rank_injective {f : AggregateFunction} {n n' : Int} (h : f.rank n = f.rank n') :
    n = n' := by
  cases f
  case max => exact Int.neg_inj.1 h
  all_goals exact h

def precedes (f : AggregateFunction) (a b : Float) : Bool :=
  match f with
  | .max => b < a
  | _ => a < b

theorem precedes_ofInt_iff {f : AggregateFunction} {n n' : Int} (h : Number.inRange n = true)
    (h' : Number.inRange n' = true) :
    f.precedes (Float.ofInt n) (Float.ofInt n') = true ↔
      f.rank (Double.nearestInt n) < f.rank (Double.nearestInt n') := by
  cases f
  case max =>
    exact decide_eq_true_iff.trans ((Double.ofInt_lt_iff h' h).trans Int.neg_lt_neg_iff.symm)
  all_goals exact decide_eq_true_iff.trans (Double.ofInt_lt_iff h h')

def weighed (n : Int) : Json × Float :=
  (.number (.int n), Float.ofInt n)

def FirstLeast (key : Int → Int) (integers : List Int) (r : Int) : Prop :=
  ∃ front back, integers = front ++ r :: back ∧ (∀ n ∈ front, key r < key n) ∧
    ∀ n ∈ back, key r ≤ key n

variable {key : Int → Int} {integers rest : List Int} {r best next : Int}

theorem FirstLeast.le (h : FirstLeast key integers r) : ∀ n ∈ integers, key r ≤ key n := by
  obtain ⟨front, back, rfl, before, after⟩ := h
  intro n hn
  rcases List.mem_append.1 hn with hn | hn
  · exact Int.le_of_lt (before n hn)
  · rcases List.mem_cons.1 hn with rfl | hn
    · exact Int.le_refl _
    · exact after n hn

theorem FirstLeast.mem (h : FirstLeast key integers r) : r ∈ integers := by
  obtain ⟨front, back, rfl, -⟩ := h
  exact List.mem_append_right front List.mem_cons_self

theorem FirstLeast.replace (h : FirstLeast key (next :: rest) r) (less : key next < key best) :
    FirstLeast key (best :: next :: rest) r := by
  have le := h.le next List.mem_cons_self
  obtain ⟨front, back, same, before, after⟩ := h
  refine ⟨best :: front, back, congrArg (best :: ·) same, fun n hn => ?_, after⟩
  rcases List.mem_cons.1 hn with rfl | hn
  · exact Int.lt_of_le_of_lt le less
  · exact before n hn

theorem FirstLeast.keep (h : FirstLeast key (best :: rest) r) (le : key best ≤ key next) :
    FirstLeast key (best :: next :: rest) r := by
  obtain ⟨front, back, same, before, after⟩ := h
  cases front with
  | nil =>
      obtain ⟨rfl, rfl⟩ := List.cons.inj same
      refine ⟨[], next :: rest, rfl, before, fun n hn => ?_⟩
      rcases List.mem_cons.1 hn with rfl | hn
      · exact le
      · exact after n hn
  | cons first front =>
      obtain ⟨rfl, rfl⟩ := List.cons.inj same
      refine ⟨best :: next :: front, back, rfl, fun n hn => ?_, after⟩
      rcases List.mem_cons.1 hn with rfl | hn
      · exact before n List.mem_cons_self
      · rcases List.mem_cons.1 hn with rfl | hn
        · exact Int.lt_of_lt_of_le (before best List.mem_cons_self) le
        · exact before n (List.mem_cons_of_mem best hn)

theorem exists_extreme (f : AggregateFunction) :
    ∀ (rest : List Int) (best : Int), (∀ n ∈ best :: rest, Number.inRange n = true) →
      ∃ r, extreme f.precedes (weighed best) (rest.map weighed) = .number (.int r) ∧
        FirstLeast (fun n => f.rank (Double.nearestInt n)) (best :: rest) r := by
  intro rest
  induction rest with
  | nil => exact fun best _ => ⟨best, rfl, [], [], rfl, nofun, nofun⟩
  | cons next rest ih =>
      intro best range
      have decides := @precedes_ofInt_iff f next best (range next (by simp)) (range best (by simp))
      rw [List.map_cons, extreme]
      split
      · rename_i better
        obtain ⟨r, answer, least⟩ := ih next fun n hn => range n (List.mem_cons_of_mem best hn)
        exact ⟨r, answer, least.replace (decides.1 better)⟩
      · rename_i worse
        obtain ⟨r, answer, least⟩ := ih best fun n hn => range n (by
          rcases List.mem_cons.1 hn with rfl | hn
          · exact List.mem_cons_self
          · exact List.mem_cons_of_mem best (List.mem_cons_of_mem next hn))
        exact ⟨r, answer, least.keep (Int.not_lt.1 (mt decides.2 worse))⟩

theorem toNumbers_integers (f : AggregateFunction) (integers : List Int) :
    f.toNumbers (integers.map fun n => .number (.int n)) = .ok (integers.map weighed) := by
  induction integers with
  | nil => rfl
  | cons n integers ih =>
      rw [List.map_cons, toNumbers, ih]
      rfl

theorem apply_eq_extreme {f : AggregateFunction} (extremal : f = .min ∨ f = .max)
    {found : List Json} {first : Json × Float} {others : List (Json × Float)}
    (numbers : f.toNumbers (spread found) = .ok (first :: others)) :
    f.apply found = .ok (extreme f.precedes first others) := by
  rcases extremal with rfl | rfl
  · simp only [apply, numbers]
    rfl
  · simp only [apply, numbers]
    rfl

theorem exists_apply_extreme {f : AggregateFunction} (extremal : f = .min ∨ f = .max)
    {found : List Json} (listed : spread found = integers.map fun n => .number (.int n))
    (nonempty : integers ≠ []) (range : ∀ n ∈ integers, Number.inRange n = true) :
    ∃ r, f.apply found = .ok (.number (.int r)) ∧
      FirstLeast (fun n => f.rank (Double.nearestInt n)) integers r := by
  obtain ⟨first, rest, rfl⟩ := List.exists_cons_of_ne_nil nonempty
  have numbers := f.toNumbers_integers (first :: rest)
  rw [← listed] at numbers
  obtain ⟨r, answer, least⟩ := f.exists_extreme rest first range
  refine ⟨r, ?_, least⟩
  rw [apply_eq_extreme extremal numbers, answer]

end AggregateFunction

namespace Query

open AggregateFunction

/-- The least or the greatest of the integers selected, where no other one with the same nearest
double is less or greater; and the first one with that nearest double in any case. -/
theorem exists_read_extreme {subtree : Json} {residual : Residual} {record : RecordContext}
    {f : AggregateFunction} {found : List Json} {integers : List Int}
    (function : residual.function? = some f) (extremal : f = .min ∨ f = .max)
    (selected : values (render record residual.tokens) subtree = .ok found)
    (listed : spread found = integers.map fun n => .number (.int n)) (nonempty : integers ≠ [])
    (range : ∀ n ∈ integers, Number.inRange n = true) :
    ∃ r ∈ integers, read subtree residual record = .ok (.number (.int r)) ∧
      FirstLeast (fun n => f.rank (Double.nearestInt n)) integers r ∧
      ((∀ n ∈ integers, f.rank r ≤ f.rank n) ↔
        ∀ n ∈ integers, Double.nearestInt n = Double.nearestInt r → f.rank r ≤ f.rank n) ∧
      ((∀ n ∈ integers, n.natAbs ≤ 2 ^ 53) → ∀ n ∈ integers, f.rank r ≤ f.rank n) := by
  obtain ⟨r, answer, least⟩ := exists_apply_extreme extremal listed nonempty range
  have answered : read subtree residual record = .ok (.number (.int r)) := by
    simp only [read, selected, function, answer]
  refine ⟨r, least.mem, answered, least, ⟨fun exact n hn _ => exact n hn, fun alike n hn => ?_⟩,
    fun small n hn => ?_⟩
  · by_contra more
    have nearest : f.rank (Double.nearestInt n) = f.rank (Double.nearestInt r) :=
      Int.le_antisymm (rank_nearestInt_le (Int.le_of_lt (Int.not_le.1 more))) (least.le n hn)
    exact more (alike n hn (rank_injective nearest))
  · have le := least.le n hn
    rwa [Double.nearestInt_of_natAbs_le (small r least.mem),
      Double.nearestInt_of_natAbs_le (small n hn)] at le

/-- Two integers of 54 bits that differ by two are told apart. -/
theorem exists_read_extreme_apart :
    let integers : List Int := [9007199254740993, 9007199254740991]
    let subtree : Json := .array (integers.map fun n => .number (.int n))
    let residual : Residual := ⟨"$[*].min()", [.listWildcard, .function .min]⟩
    ∃ r ∈ integers, read subtree residual ⟨1, 0, 0⟩ = .ok (.number (.int r)) ∧
      ∀ n ∈ integers, r ≤ n := by
  intro integers subtree residual
  have selected : values (render ⟨1, 0, 0⟩ residual.tokens) subtree =
      .ok (integers.map fun n => .number (.int n)) := by decide +kernel
  have nonempty : integers ≠ [] := by decide
  have range : ∀ n ∈ integers, Number.inRange n = true := by decide
  obtain ⟨r, listed, answer, -, exact, -⟩ :=
    exists_read_extreme (f := .min) rfl (.inl rfl) selected rfl nonempty range
  refine ⟨r, listed, answer, exact.2 fun n hn alike => ?_⟩
  have apart : Double.nearestInt 9007199254740993 ≠ Double.nearestInt 9007199254740991 := by decide
  simp only [integers, List.mem_cons, List.not_mem_nil, or_false] at listed hn
  rcases listed with rfl | rfl <;> rcases hn with rfl | rfl
  · exact Int.le_refl _
  · exact absurd alike.symm apart
  · exact absurd alike apart
  · exact Int.le_refl _

/-- The two integers have the same nearest double, and the greater one comes first. -/
theorem read_min_not_least :
    let integers : List Int := [9007199254740993, 9007199254740992]
    let subtree : Json := .array (integers.map fun n => .number (.int n))
    read subtree ⟨"$.min()", [.function .min]⟩ ⟨1, 0, 0⟩ =
      .ok (.number (.int 9007199254740993)) ∧
      ¬ ∀ n ∈ integers, 9007199254740993 ≤ n := by
  decide +kernel

end Query

end RecordPath
