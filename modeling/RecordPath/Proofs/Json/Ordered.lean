import RecordPath.Json.Written
import RecordPath.Proofs.Members

namespace RecordPath

namespace Members

variable {α : Type} {name : String} {value : α} {members : Members α} {pairs : List (String × α)}

def Ordered (members : Members α) : Prop :=
  (members.map Prod.fst).Pairwise (· < ·)

theorem get?_eq_none_of_lt (h : ∀ n ∈ members.map Prod.fst, n < name) :
    get? name members = none := by
  have unlisted : name ∉ members.map Prod.fst := fun listed =>
    String.lt_irrefl name (h name listed)
  rw [mem_names_iff, Bool.not_eq_true, Option.isSome_eq_false_iff, Option.isNone_iff_eq_none]
    at unlisted
  exact unlisted

theorem place_of_lt (h : ∀ n ∈ members.map Prod.fst, n < name) :
    place name value members = members ++ [(name, value)] := by
  induction members with
  | nil => rfl
  | cons first rest ih =>
      have before : ¬ name < first.1 := fun after =>
        String.lt_irrefl name (String.lt_trans after (h first.1 List.mem_cons_self))
      rw [place, if_neg before, ih fun n hn => h n (List.mem_cons_of_mem _ hn), List.cons_append]

theorem insert_of_lt (h : ∀ n ∈ members.map Prod.fst, n < name) :
    insert name value members = members ++ [(name, value)] := by
  rw [insert, get?_eq_none_of_lt h]
  exact place_of_lt h

theorem foldl_insert_of_ordered (h : Ordered (members ++ pairs)) :
    pairs.foldl (fun members pair => insert pair.1 pair.2 members) members = members ++ pairs := by
  induction pairs generalizing members with
  | nil => rw [List.foldl_nil, List.append_nil]
  | cons pair rest ih =>
      have apart : members ++ pair :: rest = members ++ [pair] ++ rest := by simp
      have greatest : ∀ n ∈ members.map Prod.fst, n < pair.1 := by
        rw [Ordered, List.map_append, List.pairwise_append] at h
        exact fun n hn => h.2.2 n hn pair.1 List.mem_cons_self
      rw [apart] at h ⊢
      rw [List.foldl_cons, insert_of_lt greatest]
      exact ih h

theorem ofList_of_ordered (h : Ordered pairs) : ofList pairs = pairs :=
  foldl_insert_of_ordered h

theorem mem_names_place {n : String} (h : n ∈ (place name value members).map Prod.fst) :
    n = name ∨ n ∈ members.map Prod.fst := by
  have listed := ((place_perm name value members).map Prod.fst).mem_iff.1 h
  rwa [List.map_cons, List.mem_cons] at listed

theorem ordered_place (h : Ordered members) (absent : name ∉ members.map Prod.fst) :
    Ordered (place name value members) := by
  induction members with
  | nil => exact List.pairwise_singleton _ _
  | cons first rest ih =>
      obtain ⟨least, others⟩ := List.pairwise_cons.1 h
      rw [List.map_cons, List.mem_cons, not_or] at absent
      rw [place]
      split
      · rename_i before
        apply List.Pairwise.cons
        · intro n hn
          rcases List.mem_cons.1 hn with rfl | later
          · exact before
          · exact String.lt_trans before (least n later)
        · exact h
      · rename_i before
        apply List.Pairwise.cons
        · intro n hn
          rcases mem_names_place hn with rfl | later
          · exact Std.lt_of_le_of_ne (String.not_lt.1 before) (Ne.symm absent.1)
          · exact least n later
        · exact ih others absent.2

theorem ordered_insert (h : Ordered members) : Ordered (insert name value members) := by
  unfold insert
  split
  · rw [Ordered, names_replace]
    exact h
  · rename_i absent
    apply ordered_place h
    rw [mem_names_iff, absent]
    exact Bool.false_ne_true

theorem ordered_ofList (pairs : List (String × α)) : Ordered (ofList pairs) := by
  have collect (members : Members α) (h : Ordered members) :
      Ordered (pairs.foldl (fun members pair => insert pair.1 pair.2 members) members) := by
    induction pairs generalizing members with
    | nil => exact h
    | cons pair rest ih => exact ih _ (ordered_insert h)
  exact collect [] List.Pairwise.nil

theorem mem_of_mem_ofList {member : String × α} (h : member ∈ ofList pairs) : member ∈ pairs :=
  mem_of_get?_ofList (get?_of_mem (nodup_ofList pairs) h)

end Members

namespace Json

mutual

def Ordered : Json → Prop
  | .array items => ItemsOrdered items
  | .object members => Members.Ordered members ∧ MembersOrdered members
  | _ => True

def ItemsOrdered : List Json → Prop
  | [] => True
  | item :: items => Ordered item ∧ ItemsOrdered items

def MembersOrdered : List (String × Json) → Prop
  | [] => True
  | (_, value) :: members => Ordered value ∧ MembersOrdered members

end

theorem membersOrdered_iff {members : List (String × Json)} :
    MembersOrdered members ↔ ∀ member ∈ members, member.2.Ordered := by
  induction members with
  | nil => simp [MembersOrdered]
  | cons member members ih => simp [MembersOrdered, ih]

end Json

namespace Written

open Json

mutual

theorem toJson?_written : ∀ {value : Json}, value.Ordered →
    toJson? some value.written = some value
  | .null, _ => rfl
  | .bool _, _ => rfl
  | .number _, _ => rfl
  | .string _, _ => rfl
  | .array items, h => by
      rw [Json.written, toJson?, itemsToJson?_written h]
      rfl
  | .object members, h => by
      rw [Json.written, toJson?, membersToJson?_written h.2, Option.map_some,
        Members.ofList_of_ordered h.1]

theorem itemsToJson?_written : ∀ {items : List Json}, ItemsOrdered items →
    itemsToJson? some (itemsWritten items) = some items
  | [], _ => rfl
  | _ :: _, h => by
      rw [itemsWritten, itemsToJson?, toJson?_written h.1, itemsToJson?_written h.2]

theorem membersToJson?_written : ∀ {members : List (String × Json)}, MembersOrdered members →
    membersToJson? some (membersWritten members) = some members
  | [], _ => rfl
  | (name, value) :: members, h => by
      simp only [membersWritten, membersToJson?, toJson?_written h.1, membersToJson?_written h.2]

end

variable {ν : Type} {number? : ν → Option Number}

mutual

theorem ordered_of_toJson? : ∀ {w : Written ν} {value : Json},
    toJson? number? w = some value → value.Ordered
  | .null, _, h => by
      cases h
      trivial
  | .bool _, _, h => by
      cases h
      trivial
  | .number _, _, h => by
      obtain ⟨n, -, rfl⟩ := Option.map_eq_some_iff.1 h
      trivial
  | .string _, _, h => by
      obtain ⟨s, -, rfl⟩ := Option.map_eq_some_iff.1 h
      trivial
  | .array _, _, h => by
      obtain ⟨items, read, rfl⟩ := Option.map_eq_some_iff.1 h
      exact itemsOrdered_of_toJson? read
  | .object _, _, h => by
      obtain ⟨pairs, read, rfl⟩ := Option.map_eq_some_iff.1 h
      have values := membersOrdered_iff.1 (membersOrdered_of_toJson? read)
      exact ⟨Members.ordered_ofList pairs,
        membersOrdered_iff.2 fun member hm => values member (Members.mem_of_mem_ofList hm)⟩

theorem itemsOrdered_of_toJson? : ∀ {ws : List (Written ν)} {items : List Json},
    itemsToJson? number? ws = some items → ItemsOrdered items
  | [], _, h => by
      cases h
      trivial
  | _ :: _, _, h => by
      rw [itemsToJson?] at h
      split at h
      · rename_i first rest
        cases h
        exact ⟨ordered_of_toJson? first, itemsOrdered_of_toJson? rest⟩
      · cases h

theorem membersOrdered_of_toJson? : ∀ {ws : List (Option String × Written ν)}
    {members : List (String × Json)}, membersToJson? number? ws = some members →
    MembersOrdered members
  | [], _, h => by
      cases h
      trivial
  | (name, w) :: ws, _, h => by
      simp only [membersToJson?] at h
      split at h
      · rename_i first rest
        cases h
        exact ⟨ordered_of_toJson? first, membersOrdered_of_toJson? rest⟩
      · cases h

end

end Written

end RecordPath
