import RecordPath.Text.Hex

namespace RecordPath.Text

def controlEscape (c : Char) : List Char :=
  '\\' :: 'u' :: fourHex c.toNat

def escapeByNumber (quote c : Char) : List Char :=
  if c = quote ∨ c = '\\' then ['\\', c]
  else if c.toNat < 0x20 then controlEscape c
  else [c]

def escape (quote c : Char) : List Char :=
  if c = '\x08' then ['\\', 'b']
  else if c = '\x0c' then ['\\', 'f']
  else if c = '\n' then ['\\', 'n']
  else if c = '\r' then ['\\', 'r']
  else if c = '\t' then ['\\', 't']
  else escapeByNumber quote c

def quoted (quote : Char) (cs : List Char) : List Char :=
  quote :: cs.flatMap (escape quote) ++ [quote]

def quotedByNumber (quote : Char) (cs : List Char) : List Char :=
  quote :: cs.flatMap (escapeByNumber quote) ++ [quote]

def unescape : Char → Char
  | 'b' => '\x08'
  | 'f' => '\x0c'
  | 'n' => '\n'
  | 'r' => '\r'
  | 't' => '\t'
  | c => c

def unquote? (signed : Bool) (quote : Char) : List Char → Option (List Char × List Char)
  | [] => none
  | '\\' :: 'u' :: a :: b :: c :: d :: rest =>
      match (escapeNumber? signed a b c d).bind charOf? with
      | some x => (unquote? signed quote rest).map fun (text, after) => (x :: text, after)
      | none => none
  | '\\' :: 'u' :: _ => none
  | '\\' :: e :: rest =>
      (unquote? signed quote rest).map fun (text, after) => (unescape e :: text, after)
  | ['\\'] => none
  | c :: rest =>
      if c = quote then some ([], rest)
      else (unquote? signed quote rest).map fun (text, after) => (c :: text, after)

variable {signed : Bool} {quote c : Char}

theorem length_unquote?_lt {cs text after : List Char}
    (h : unquote? signed quote cs = some (text, after)) : after.length < cs.length := by
  fun_induction unquote? signed quote cs generalizing text after with
  | case1 => cases h
  | case2 a b c d rest x hx ih =>
      obtain ⟨⟨t, u⟩, hr, he⟩ := Option.map_eq_some_iff.1 h
      cases he
      have := ih hr
      simp only [List.length_cons]
      omega
  | case3 => cases h
  | case4 => cases h
  | case5 e rest _ _ ih =>
      obtain ⟨⟨t, u⟩, hr, he⟩ := Option.map_eq_some_iff.1 h
      cases he
      have := ih hr
      simp only [List.length_cons]
      omega
  | case6 => cases h
  | case7 => cases h; simp
  | case8 c rest _ _ _ _ _ ih =>
      obtain ⟨⟨t, u⟩, hr, he⟩ := Option.map_eq_some_iff.1 h
      cases he
      have := ih hr
      simp only [List.length_cons]
      omega

theorem unquote?_cons (hs : c ≠ '\\') (hq : c ≠ quote) (rest : List Char) :
    unquote? signed quote (c :: rest) =
      (unquote? signed quote rest).map fun (text, after) => (c :: text, after) := by
  rw [unquote?.eq_def]
  split <;> simp_all

theorem unquote?_backslash {e : Char} (h : e ≠ 'u') (rest : List Char) :
    unquote? signed quote ('\\' :: e :: rest) =
      (unquote? signed quote rest).map fun (text, after) => (unescape e :: text, after) := by
  rw [unquote?.eq_def]
  split
  case h_6 c more hc _ heq =>
    obtain ⟨rfl, rfl⟩ := List.cons.inj heq
    exact absurd rfl (hc e rest rfl)
  all_goals simp_all

theorem unquote?_controlEscape (h : c.toNat < 0x20) (rest : List Char) :
    unquote? signed quote (controlEscape c ++ rest) =
      (unquote? signed quote rest).map fun (text, after) => (c :: text, after) := by
  simp only [controlEscape, fourHex, List.cons_append, List.nil_append]
  rw [unquote?, escapeNumber?_fourHex signed (Nat.lt_trans h (by decide))]
  simp [charOf?_toNat]

theorem unquote?_escapeByNumber (hq : quote = '\x27' ∨ quote = '\x22') (c : Char)
    (rest : List Char) :
    unquote? signed quote (escapeByNumber quote c ++ rest) =
      (unquote? signed quote rest).map fun (text, after) => (c :: text, after) := by
  unfold escapeByNumber
  split
  · rename_i h
    have hu : c ≠ 'u' := by
      rcases h with rfl | rfl <;> rcases hq with rfl | rfl <;> decide
    have he : unescape c = c := by
      rcases h with rfl | rfl <;> rcases hq with rfl | rfl <;> rfl
    rw [List.cons_append, List.cons_append, unquote?_backslash hu, he]
    rfl
  · rename_i h
    split
    · rename_i hc
      exact unquote?_controlEscape hc rest
    · exact unquote?_cons (fun e => h (.inr e)) (fun e => h (.inl e)) rest

theorem unquote?_escape (hq : quote = '\x27' ∨ quote = '\x22') (c : Char)
    (rest : List Char) :
    unquote? signed quote (escape quote c ++ rest) =
      (unquote? signed quote rest).map fun (text, after) => (c :: text, after) := by
  unfold escape
  split
  · subst_vars; exact unquote?_backslash (by decide) rest
  split
  · subst_vars; exact unquote?_backslash (by decide) rest
  split
  · subst_vars; exact unquote?_backslash (by decide) rest
  split
  · subst_vars; exact unquote?_backslash (by decide) rest
  split
  · subst_vars; exact unquote?_backslash (by decide) rest
  · exact unquote?_escapeByNumber hq c rest

theorem unquote?_close (hq : quote = '\x27' ∨ quote = '\x22') (rest : List Char) :
    unquote? signed quote (quote :: rest) = some ([], rest) := by
  rcases hq with rfl | rfl <;> simp [unquote?]

theorem unquote?_flatMap {encode : Char → List Char}
    (step : ∀ c rest, unquote? signed quote (encode c ++ rest) =
      (unquote? signed quote rest).map fun (text, after) => (c :: text, after))
    (close : ∀ rest, unquote? signed quote (quote :: rest) = some ([], rest))
    (cs rest : List Char) :
    unquote? signed quote (cs.flatMap encode ++ quote :: rest) = some (cs, rest) := by
  induction cs with
  | nil => simp [close]
  | cons c cs ih => simp [List.append_assoc, step, ih]

theorem unquote?_quoted (signed : Bool) (hq : quote = '\x27' ∨ quote = '\x22')
    (cs rest : List Char) :
    unquote? signed quote (cs.flatMap (escape quote) ++ quote :: rest) = some (cs, rest) :=
  unquote?_flatMap (unquote?_escape hq) (unquote?_close hq) cs rest

theorem unquote?_quotedByNumber (signed : Bool) (hq : quote = '\x27' ∨ quote = '\x22')
    (cs rest : List Char) :
    unquote? signed quote (cs.flatMap (escapeByNumber quote) ++ quote :: rest) = some (cs, rest) :=
  unquote?_flatMap (unquote?_escapeByNumber hq) (unquote?_close hq) cs rest

end RecordPath.Text
