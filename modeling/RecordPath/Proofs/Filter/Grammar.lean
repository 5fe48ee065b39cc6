import RecordPath.Filter.Parser

namespace RecordPath

namespace Predicate

inductive Level where
  | disjunction
  | conjunction
  | negation
  | primary

/-- `or := and ('||' and)*`, `and := unary ('&&' unary)*`, `unary := '!' unary | primary`, and a
primary is a group, a quantifier, a comparison or a path. -/
inductive Derives : Level → List Lexeme → Predicate → Prop
  | conjunction {xs : List Lexeme} {p : Predicate} :
      Derives .conjunction xs p → Derives .disjunction xs p
  | or {xs ys : List Lexeme} {p q : Predicate} :
      Derives .disjunction xs p → Derives .conjunction ys q →
      Derives .disjunction (xs ++ .or :: ys) (.or p q)
  | negation {xs : List Lexeme} {p : Predicate} :
      Derives .negation xs p → Derives .conjunction xs p
  | and {xs ys : List Lexeme} {p q : Predicate} :
      Derives .conjunction xs p → Derives .negation ys q →
      Derives .conjunction (xs ++ .and :: ys) (.and p q)
  | primary {xs : List Lexeme} {p : Predicate} :
      Derives .primary xs p → Derives .negation xs p
  | not {xs : List Lexeme} {p : Predicate} :
      Derives .negation xs p → Derives .negation (.not :: xs) (.not p)
  | group {xs : List Lexeme} {p : Predicate} :
      Derives .disjunction xs p → Derives .primary (.opening :: (xs ++ [.closing])) p
  | quantified (quantifier : Quantifier) (path : Location) {xs : List Lexeme} {p : Predicate} :
      Derives .disjunction xs p →
      Derives .primary (.quantifier quantifier :: .operand (.path path) :: .comma ::
        (xs ++ [.closing])) (.quantified quantifier path p)
  | compare (left : Operand) (op : Comparison) (right : Operand) :
      Derives .primary [.operand left, .compare op, .operand right] (.compare left op right)
  | present (path : Location) : Derives .primary [.operand (.path path)] (.present path)

end Predicate

open Predicate (Derives Level)

namespace Opening

def lexemes : Opening → List Lexeme
  | .group => [.opening]
  | .quantifier q path => [.quantifier q, .operand (.path path), .comma]

end Opening

namespace Predicate

theorem Derives.block (opening : Opening) {xs : List Lexeme} {p : Predicate}
    (h : Derives .disjunction xs p) :
    Derives .primary (opening.lexemes ++ (xs ++ [.closing])) (opening.close p) := by
  cases opening with
  | group => exact .group h
  | quantifier q path => exact .quantified q path h

theorem Derives.negate {xs : List Lexeme} {p : Predicate} (n : Nat)
    (h : Derives .negation xs p) :
    Derives .negation (List.replicate n .not ++ xs) (p.negate n) := by
  induction n generalizing xs p with
  | zero => exact h
  | succ n ih =>
      have moved : List.replicate (n + 1) Lexeme.not ++ xs =
          List.replicate n .not ++ .not :: xs := by
        simp [List.replicate_succ']
      rw [moved]
      exact ih (.not h)

end Predicate

namespace Frame

inductive Pending (level : Level) (operator : Lexeme) : Option Predicate → List Lexeme → Prop
  | none : Pending level operator none []
  | some {xs : List Lexeme} {p : Predicate} :
      Derives level xs p → Pending level operator (some p) (xs ++ [operator])

inductive Last : Nat → Option Predicate → List Lexeme → Prop
  | expecting (n : Nat) : Last n none (List.replicate n .not)
  | complete {xs : List Lexeme} {p : Predicate} : Derives .negation xs p → Last 0 (some p) xs

inductive Reads : Frame → List Lexeme → Prop
  | parts {disjunct conjunct operand : Option Predicate} {nots : Nat} {ds cs us : List Lexeme} :
      Pending .disjunction .or disjunct ds → Pending .conjunction .and conjunct cs →
      Last nots operand us → Reads ⟨disjunct, conjunct, nots, operand⟩ (ds ++ (cs ++ us))

variable {frame next : Frame} {xs ys : List Lexeme} {p : Predicate}

theorem reads_empty : Reads .empty [] :=
  .parts .none .none (.expecting 0)

theorem derives_conjunction (before : Pending .conjunction .and frame.conjunct xs)
    (h : Derives .negation ys p) : Derives .conjunction (xs ++ ys) (frame.conjunction p) := by
  unfold conjunction
  cases hc : frame.conjunct with
  | none =>
      rw [hc] at before
      cases before
      exact .negation h
  | some left =>
      rw [hc] at before
      cases before with
      | some hl => simpa using Derives.and hl h

theorem derives_disjunction (before : Pending .disjunction .or frame.disjunct xs)
    (h : Derives .conjunction ys (frame.conjunction p)) :
    Derives .disjunction (xs ++ ys) (frame.disjunction p) := by
  unfold disjunction
  cases hd : frame.disjunct with
  | none =>
      rw [hd] at before
      cases before
      exact .conjunction h
  | some left =>
      rw [hd] at before
      cases before with
      | some hl => simpa using Derives.or hl h

theorem Reads.derives (reads : frame.Reads xs) (complete : frame.operand = some p) :
    Derives .disjunction xs (frame.disjunction p) := by
  cases reads with
  | parts hd hc last =>
      cases complete
      cases last with
      | complete h => exact derives_disjunction hd (derives_conjunction hc h)

theorem Reads.finish (reads : frame.Reads xs) (h : frame.finish = .ok p) :
    Derives .disjunction xs p := by
  unfold Frame.finish at h
  cases ho : frame.operand with
  | some last =>
      simp only [ho] at h
      cases h
      exact reads.derives ho
  | none =>
      simp only [ho] at h
      split at h <;> cases h

theorem Reads.shift (reads : frame.Reads xs) (h : Derives .primary ys p)
    (shifted : frame.shift p = .ok next) : next.Reads (xs ++ ys) := by
  cases reads with
  | @parts _ _ _ nots _ _ _ hd hc last =>
      cases last with
      | complete _ => cases shifted
      | expecting _ =>
          cases shifted
          have whole := Reads.parts hd hc (.complete (Derives.negate nots (.primary h)))
          simpa using whole

theorem Reads.shiftNot (reads : frame.Reads xs) (shifted : frame.shiftNot = .ok next) :
    next.Reads (xs ++ [.not]) := by
  cases reads with
  | @parts _ _ _ nots _ _ _ hd hc last =>
      cases last with
      | complete _ => cases shifted
      | expecting _ =>
          cases shifted
          have whole := Reads.parts hd hc (.expecting (nots + 1))
          simpa [List.replicate_succ'] using whole

theorem Reads.shiftAnd (reads : frame.Reads xs) (shifted : frame.shiftAnd = .ok next) :
    next.Reads (xs ++ [.and]) := by
  cases reads with
  | @parts disjunct conjunct _ _ _ _ _ hd hc last =>
      cases last with
      | expecting _ => cases shifted
      | @complete _ p h =>
          cases shifted
          have left :
              Derives .conjunction _ (Frame.conjunction ⟨disjunct, conjunct, 0, some p⟩ p) :=
            derives_conjunction hc h
          have whole := Reads.parts hd (.some left) (.expecting 0)
          simpa using whole

theorem Reads.shiftOr (reads : frame.Reads xs) (shifted : frame.shiftOr = .ok next) :
    next.Reads (xs ++ [.or]) := by
  cases reads with
  | @parts disjunct conjunct _ _ _ _ _ hd hc last =>
      cases last with
      | expecting _ => cases shifted
      | @complete _ p h =>
          cases shifted
          have left := (Reads.parts hd hc (.complete h)).derives rfl
          simpa using Reads.parts (.some left) .none (.expecting 0)

theorem shiftOr_of_finish (h : frame.finish = .ok p) :
    frame.shiftOr = .ok ⟨some p, none, frame.nots, none⟩ := by
  unfold Frame.finish at h
  cases ho : frame.operand with
  | some last =>
      simp only [ho] at h
      cases h
      simp only [shiftOr, ho]
  | none =>
      simp only [ho] at h
      split at h <;> cases h

end Frame

namespace Predicate

inductive Enclosed : List (Opening × Frame) → List Lexeme → Prop
  | nil : Enclosed [] []
  | cons (opening : Opening) {frame : Frame} {outer : List (Opening × Frame)}
      {before xs : List Lexeme} :
      Enclosed outer before → frame.Reads xs →
      Enclosed ((opening, frame) :: outer) (before ++ (xs ++ opening.lexemes))

variable {outer : List (Opening × Frame)} {frame : Frame} {xs before lexemes : List Lexeme}
  {p : Predicate}

theorem derives_of_ofLexemes (enclosed : Enclosed outer before) (reads : frame.Reads xs)
    (h : ofLexemes outer frame lexemes = .ok p) :
    Derives .disjunction (before ++ (xs ++ lexemes)) p := by
  fun_induction ofLexemes outer frame lexemes generalizing before xs with
  | case1 frame =>
      cases enclosed
      simpa using reads.finish h
  | case3 outer frame rest expecting ih =>
      simpa [Opening.lexemes] using ih (.cons .group enclosed reads) Frame.reads_empty h
  | case5 outer frame q expecting path rest ih =>
      simpa [Opening.lexemes] using
        ih (.cons (.quantifier q path) enclosed reads) Frame.reads_empty h
  | case11 frame rest inner opening around outer finished next shifted ih =>
      cases enclosed with
      | cons _ enclosed before =>
          have block := Derives.block opening (reads.finish finished)
          simpa using ih enclosed (before.shift block shifted) h
  | case13 outer frame rest next shifted ih =>
      simpa using ih enclosed (reads.shiftNot shifted) h
  | case15 outer frame rest next shifted ih =>
      simpa using ih enclosed (reads.shiftAnd shifted) h
  | case17 outer frame rest next shifted ih =>
      simpa using ih enclosed (reads.shiftOr shifted) h
  | case19 outer frame left op right rest next shifted ih =>
      simpa using ih enclosed (reads.shift (.compare left op right) shifted) h
  | case22 outer frame path rest _ _ next shifted ih =>
      simpa using ih enclosed (reads.shift (.present path) shifted) h
  | _ => cases h

def Ends (rest : List Lexeme) : Prop :=
  ∀ op : Comparison, rest.head? ≠ some (.compare op)

def Taken : Level → List Lexeme → Predicate → Prop
  | .disjunction, xs, p => ∀ outer rest, Ends rest → ∃ frame : Frame,
      ofLexemes outer .empty (xs ++ rest) = ofLexemes outer frame rest ∧
        frame.nots = 0 ∧ frame.finish = .ok p
  | .conjunction, xs, p => ∀ outer disjunct rest, Ends rest → ∃ conjunct last,
      ofLexemes outer ⟨disjunct, none, 0, none⟩ (xs ++ rest) =
          ofLexemes outer ⟨disjunct, conjunct, 0, some last⟩ rest ∧
        Frame.conjunction ⟨disjunct, conjunct, 0, some last⟩ last = p
  | _, xs, p => ∀ outer disjunct conjunct nots rest, Ends rest →
      ofLexemes outer ⟨disjunct, conjunct, nots, none⟩ (xs ++ rest) =
        ofLexemes outer ⟨disjunct, conjunct, 0, some (p.negate nots)⟩ rest

theorem ends_nil : Ends [] :=
  nofun

theorem ends_cons {lexeme : Lexeme} {rest : List Lexeme} (h : ∀ op, lexeme ≠ .compare op) :
    Ends (lexeme :: rest) := by
  intro op he
  exact h op (Option.some.inj he)

theorem ofLexemes_block (opening : Opening) (h : Taken .disjunction xs p)
    (outer : List (Opening × Frame)) (disjunct conjunct : Option Predicate) (nots : Nat)
    (rest : List Lexeme) :
    ofLexemes ((opening, ⟨disjunct, conjunct, nots, none⟩) :: outer) .empty
        (xs ++ .closing :: rest) =
      ofLexemes outer ⟨disjunct, conjunct, 0, some ((opening.close p).negate nots)⟩ rest := by
  obtain ⟨frame, taken, -, finished⟩ :=
    h ((opening, ⟨disjunct, conjunct, nots, none⟩) :: outer) (.closing :: rest) (ends_cons nofun)
  rw [taken]
  simp only [ofLexemes, finished, Frame.shift]

theorem ofLexemes_present {path : Location} {rest : List Lexeme} (ends : Ends rest) :
    ofLexemes outer frame (.operand (.path path) :: rest) =
      match frame.shift (.present path) with
      | .error fault => .error fault
      | .ok frame => ofLexemes outer frame rest := by
  cases rest with
  | nil => rfl
  | cons lexeme rest =>
      cases lexeme with
      | compare op => exact absurd rfl (ends op)
      | _ => rfl

theorem taken_of_derives {level : Level} (h : Derives level lexemes p) :
    Taken level lexemes p := by
  induction h with
  | conjunction _ ih =>
      intro outer rest ends
      obtain ⟨conjunct, last, taken, rfl⟩ := ih outer none rest ends
      exact ⟨_, taken, rfl, rfl⟩
  | @or xs ys p q _ _ ihl ihr =>
      intro outer rest ends
      obtain ⟨frame, left, nots, finished⟩ :=
        ihl outer (.or :: (ys ++ rest)) (ends_cons nofun)
      obtain ⟨conjunct, last, right, rfl⟩ := ihr outer (some p) rest ends
      refine ⟨⟨some p, conjunct, 0, some last⟩, ?_, rfl, rfl⟩
      rw [List.append_assoc, List.cons_append, left, ofLexemes,
        Frame.shiftOr_of_finish finished, nots]
      exact right
  | negation _ ih =>
      intro outer disjunct rest ends
      exact ⟨none, _, ih outer disjunct none 0 rest ends, rfl⟩
  | @and xs ys p q _ _ ihl ihr =>
      intro outer disjunct rest ends
      obtain ⟨conjunct, last, left, rfl⟩ :=
        ihl outer disjunct (.and :: (ys ++ rest)) (ends_cons nofun)
      refine ⟨some _, q, ?_, rfl⟩
      rw [List.append_assoc, List.cons_append, left, ofLexemes]
      exact ihr outer disjunct _ 0 rest ends
  | primary _ ih => exact ih
  | not _ ih =>
      intro outer disjunct conjunct nots rest ends
      rw [List.cons_append, ofLexemes]
      exact ih outer disjunct conjunct (nots + 1) rest ends
  | group _ ih =>
      intro outer disjunct conjunct nots rest ends
      rw [List.cons_append, List.append_assoc]
      exact ofLexemes_block .group ih outer disjunct conjunct nots rest
  | quantified q path _ ih =>
      intro outer disjunct conjunct nots rest ends
      simp only [List.cons_append, List.append_assoc]
      exact ofLexemes_block (.quantifier q path) ih outer disjunct conjunct nots rest
  | compare left op right =>
      intro outer disjunct conjunct nots rest ends
      rfl
  | present path =>
      intro outer disjunct conjunct nots rest ends
      exact ofLexemes_present ends

theorem ofLexemes_eq_ok_iff : ofLexemes [] .empty lexemes = .ok p ↔
    Derives .disjunction lexemes p := by
  constructor
  · intro h
    simpa using derives_of_ofLexemes .nil Frame.reads_empty h
  · intro h
    obtain ⟨frame, taken, -, finished⟩ := taken_of_derives h [] [] ends_nil
    rw [List.append_nil] at taken
    rw [taken, ofLexemes, finished]

example (a b c : Location) :
    ofLexemes [] .empty [.operand (.path a), .or, .operand (.path b), .and, .not, .not,
      .operand (.path c)] =
        .ok (.or (.present a) (.and (.present b) (.not (.not (.present c))))) :=
  rfl

theorem ofText_eq_ok_iff_derives (text : List Char) (p : Predicate) :
    ofText text = .ok p ↔
      ∃ lexemes, Lexeme.ofText text = .ok lexemes ∧ Derives .disjunction lexemes p := by
  unfold ofText
  cases hl : Lexeme.ofText text with
  | error fault => simp
  | ok lexemes => simp [ofLexemes_eq_ok_iff]

end Predicate

end RecordPath
