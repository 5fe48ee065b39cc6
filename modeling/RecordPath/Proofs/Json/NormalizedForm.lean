import RecordPath.Proofs.Json.NormalizedRoundTrip

namespace RecordPath

open Text

-- The control characters that are written with a letter, and these letters.
def controlLetters : List (Char × Char) :=
  [('\x08', 'b'), ('\t', 't'), ('\n', 'n'), ('\x0c', 'f'), ('\r', 'r')]

inductive NormalCharacter : Char → List Char → Prop
  | quote : NormalCharacter '\x27' ['\\', '\x27']
  | backslash : NormalCharacter '\\' ['\\', '\\']
  | letter {c letter : Char} : (c, letter) ∈ controlLetters → NormalCharacter c ['\\', letter]
  | number {c : Char} : c.toNat < 0x20 → (∀ letter, (c, letter) ∉ controlLetters) →
      NormalCharacter c ['\\', 'u', '0', '0', hexDigit (c.toNat / 16), hexDigit c.toNat]
  | plain {c : Char} : 0x20 ≤ c.toNat → c ≠ '\x27' → c ≠ '\\' → NormalCharacter c [c]

inductive NormalName : List Char → List Char → Prop
  | nil : NormalName [] []
  | cons {c : Char} {name text rest : List Char} :
      NormalCharacter c text → NormalName name rest → NormalName (c :: name) (text ++ rest)

inductive NormalSteps : Location → List Char → Prop
  | nil : NormalSteps [] []
  | key {name : String} {location : Location} {text rest : List Char} :
      NormalName name.toList text → NormalSteps location rest →
      NormalSteps (.key name :: location) ('[' :: '\x27' :: (text ++ '\x27' :: ']' :: rest))
  | index (i : Nat) {location : Location} {rest : List Char} :
      NormalSteps location rest →
      NormalSteps (.index i :: location) ('[' :: (natural i ++ ']' :: rest))

inductive NormalPath : Location → List Char → Prop
  | root {location : Location} {rest : List Char} :
      NormalSteps location rest → NormalPath location ('$' :: rest)

section Characters

variable {c : Char} {name text : List Char}

theorem escape_of_letter {letter : Char} (h : (c, letter) ∈ controlLetters) :
    escape '\x27' c = ['\\', letter] := by
  simp only [controlLetters, List.mem_cons, Prod.mk.injEq, List.not_mem_nil, or_false] at h
  rcases h with ⟨rfl, rfl⟩ | ⟨rfl, rfl⟩ | ⟨rfl, rfl⟩ | ⟨rfl, rfl⟩ | ⟨rfl, rfl⟩ <;> rfl

theorem escape_of_no_letter (h : ∀ letter, (c, letter) ∉ controlLetters) :
    escape '\x27' c = escapeByNumber '\x27' c := by
  have other (d letter : Char) (listed : (d, letter) ∈ controlLetters) : c ≠ d := by
    rintro rfl
    exact h letter listed
  simp only [escape, other '\x08' 'b' (by decide), other '\x0c' 'f' (by decide),
    other '\n' 'n' (by decide), other '\r' 'r' (by decide), other '\t' 't' (by decide), if_false]

theorem controlEscape_of_lt (h : c.toNat < 0x20) :
    controlEscape c = ['\\', 'u', '0', '0', hexDigit (c.toNat / 16), hexDigit c.toNat] := by
  have thousands : c.toNat / 4096 = 0 := by omega
  have hundreds : c.toNat / 256 = 0 := by omega
  rw [controlEscape, fourHex, thousands, hundreds]
  rfl

theorem normalCharacter_iff : NormalCharacter c text ↔ text = escape '\x27' c := by
  constructor
  · intro h
    cases h with
    | quote => rfl
    | backslash => rfl
    | letter listed => exact (escape_of_letter listed).symm
    | number control unlisted =>
        have unquoted : ¬ (c = '\x27' ∨ c = '\\') := by
          rintro (rfl | rfl) <;> exact absurd control (by decide)
        rw [escape_of_no_letter unlisted, escapeByNumber, if_neg unquoted, if_pos control,
          controlEscape_of_lt control]
    | plain printable quote backslash =>
        have unlisted : ∀ letter, (c, letter) ∉ controlLetters := by
          intro letter listed
          simp only [controlLetters, List.mem_cons, Prod.mk.injEq, List.not_mem_nil, or_false]
            at listed
          rcases listed with ⟨rfl, -⟩ | ⟨rfl, -⟩ | ⟨rfl, -⟩ | ⟨rfl, -⟩ | ⟨rfl, -⟩ <;>
            exact absurd printable (by decide)
        rw [escape_of_no_letter unlisted, escapeByNumber, if_neg (not_or.2 ⟨quote, backslash⟩),
          if_neg (Nat.not_lt.2 printable)]
  · rintro rfl
    by_cases listed : ∃ letter, (c, letter) ∈ controlLetters
    · obtain ⟨letter, hl⟩ := listed
      rw [escape_of_letter hl]
      exact .letter hl
    · have unlisted : ∀ letter, (c, letter) ∉ controlLetters := fun letter hl => listed ⟨letter, hl⟩
      rw [escape_of_no_letter unlisted, escapeByNumber]
      split
      · rename_i special
        rcases special with rfl | rfl
        · exact .quote
        · exact .backslash
      · rename_i special
        obtain ⟨quote, backslash⟩ := not_or.1 special
        split
        · rename_i control
          rw [controlEscape_of_lt control]
          exact .number control unlisted
        · rename_i printable
          exact .plain (Nat.not_lt.1 printable) quote backslash

theorem normalName_iff : NormalName name text ↔ text = name.flatMap (escape '\x27') := by
  constructor
  · intro h
    induction h with
    | nil => rfl
    | cons first _ ih => rw [List.flatMap_cons, normalCharacter_iff.1 first, ih]
  · rintro rfl
    induction name with
    | nil => exact .nil
    | cons c name ih =>
        rw [List.flatMap_cons]
        exact .cons (normalCharacter_iff.2 rfl) ih

end Characters

section Paths

variable {location : Location} {text : List Char}

theorem normalSteps_iff : NormalSteps location text ↔ text = location.flatMap Step.normalized := by
  constructor
  · intro h
    induction h with
    | nil => rfl
    | key name _ ih =>
        rw [List.flatMap_cons, ← ih, normalName_iff.1 name]
        simp [Step.normalized, quoted]
    | index i _ ih =>
        rw [List.flatMap_cons, ← ih]
        simp [Step.normalized]
  · rintro rfl
    induction location with
    | nil => exact .nil
    | cons step location ih =>
        rw [List.flatMap_cons]
        cases step with
        | key name =>
            have characters : NormalName name.toList (name.toList.flatMap (escape '\x27')) :=
              normalName_iff.2 rfl
            have written := NormalSteps.key characters ih
            simpa [Step.normalized, quoted] using written
        | index i =>
            have written := NormalSteps.index i ih
            simpa [Step.normalized] using written

theorem normalPath_iff : NormalPath location text ↔ text = location.normalized := by
  constructor
  · rintro ⟨steps⟩
    rw [Location.normalized, normalSteps_iff.1 steps]
  · rintro rfl
    exact .root (normalSteps_iff.2 rfl)

theorem exists_normalPath_read (addressable : location.isAddressable = true) :
    ∃ text, NormalPath location text ∧ (∀ other, NormalPath location other → other = text) ∧
      Location.ofNormalized? text = some location ∧
      ∀ other : Location, other.isAddressable = true → NormalPath other text →
        other = location := by
  have read := Location.ofNormalized?_normalized addressable
  refine ⟨location.normalized, normalPath_iff.2 rfl, fun other => normalPath_iff.1, read, ?_⟩
  intro other counted same
  rw [normalPath_iff.1 same, Location.ofNormalized?_normalized counted] at read
  exact Option.some.inj read

theorem exists_normalPath_read_path_syntax :
    let location : Location :=
      [.key "it's $['a'][0]", .index 18446744073709551615, .key "\\u0041\n\x01", .key ""]
    let text := "$['it\\'s $[\\'a\\'][0]'][18446744073709551615]['\\\\u0041\\n\\u0001']['']".toList
    NormalPath location text ∧ Location.ofNormalized? text = some location := by
  intro location text
  have addressable : location.isAddressable = true := by decide
  obtain ⟨written, normal, -, read, -⟩ := exists_normalPath_read addressable
  have same : written = text := by
    rw [normalPath_iff.1 normal]
    decide +kernel
  rw [same] at normal read
  exact ⟨normal, read⟩

end Paths

end RecordPath
