import Mathlib.Data.List.Induction
import Mathlib.Data.List.Nodup
import NodeScript.OrderedTable

/-!
# Setting entries of ordered tables

What is left when the entries of one table are set in another: the entry of a name is the last that
was set, and stands where it was set. Setting a table that has been set in another is setting the
one and then the other (`insertAll_assoc`).
-/

namespace NodeScript.OrderedTable

variable {α : Type}

theorem get?_cons (e : String × α) (es : List (String × α)) (name : String) :
    get? ⟨e :: es⟩ name = if name = e.1 then some e.2 else get? ⟨es⟩ name := by
  obtain ⟨key, entry⟩ := e
  simp only [get?, List.lookup_cons]
  by_cases h : name = key
  · simp [h]
  · simp [beq_eq_false_iff_ne.2 h, h]

theorem contains_iff_mem_keys {t : OrderedTable α} {name : String} :
    t.contains name ↔ name ∈ t.keys := by
  rw [contains, get?, List.lookup_isSome_iff, keys, List.mem_map]
  exact ⟨fun ⟨e, he, h⟩ => ⟨e, he, (eq_of_beq h).symm⟩, fun ⟨e, he, h⟩ => ⟨e, he, by simp [h]⟩⟩

theorem get?_eq_none_iff {t : OrderedTable α} {name : String} :
    t.get? name = none ↔ name ∉ t.keys := by
  rw [← contains_iff_mem_keys, contains, Option.not_isSome_iff_eq_none]

theorem ne_of_contains {t : OrderedTable α} {name other : String} (h : t.contains name)
    (h' : t.contains other = false) : name ≠ other := by
  rintro rfl
  rw [h] at h'
  cases h'

/-! ## Single entries -/

theorem keys_erase (t : OrderedTable α) (name : String) :
    (t.erase name).keys = t.keys.filter (· != name) := by
  rw [keys, erase, keys, List.filter_map]
  rfl

theorem keys_insert (t : OrderedTable α) (name : String) (entry : α) :
    (t.insert name entry).keys = t.keys.filter (· != name) ++ [name] := by
  rw [← keys_erase, insert, keys, keys, List.map_append]
  rfl

theorem get?_erase (t : OrderedTable α) (name other : String) :
    (t.erase name).get? other = if other = name then none else t.get? other := by
  obtain ⟨entries⟩ := t
  induction entries with
  | nil => simp [erase, get?]
  | cons e entries ih =>
      rw [get?_cons]
      by_cases he : e.1 = name
      · have dropped : erase ⟨e :: entries⟩ name = erase ⟨entries⟩ name := by
          simp [erase, he]
        rw [dropped, ih]
        by_cases ho : other = name
        · rw [if_pos ho, if_pos ho]
        · rw [if_neg ho, if_neg ho, if_neg (he ▸ ho)]
      · have kept : erase ⟨e :: entries⟩ name = ⟨e :: (erase ⟨entries⟩ name).entries⟩ := by
          simp [erase, he]
        rw [kept, get?_cons, ih]
        by_cases ho : other = e.1
        · rw [if_pos ho, if_pos ho, if_neg (ho ▸ he)]
        · rw [if_neg ho, if_neg ho]

theorem get?_insert (t : OrderedTable α) (name other : String) (entry : α) :
    (t.insert name entry).get? other = if other = name then some entry else t.get? other := by
  have append : (t.insert name entry).get? other =
      ((t.erase name).get? other).or ([(name, entry)].lookup other) := List.lookup_append
  rw [append, get?_erase]
  by_cases h : other = name
  · simp [h]
  · simp [h, List.lookup_cons, beq_eq_false_iff_ne.2 h]

theorem get?_map (t : OrderedTable α) (change : String → α → α) (name : String) :
    get? ⟨t.entries.map fun e => (e.1, change e.1 e.2)⟩ name = (t.get? name).map (change name) := by
  obtain ⟨es⟩ := t
  induction es with
  | nil => rfl
  | cons e es ih =>
      rw [List.map_cons, get?_cons, get?_cons, ih]
      by_cases h : name = e.1
      · simp [h]
      · simp [h]

theorem get?_alter (t : OrderedTable α) (name other : String) (change : α → α) (new : α) :
    (t.alter name change new).get? other =
      if other = name then some (((t.get? name).map change).getD new) else t.get? other := by
  unfold alter
  split
  · next hc =>
      have same : (fun e : String × α => if e.1 = name then (e.1, change e.2) else e) =
          fun e => (e.1, if e.1 = name then change e.2 else e.2) := by
        funext e
        split <;> rfl
      rw [same, get?_map t fun key entry => if key = name then change entry else entry]
      by_cases h : other = name
      · subst h
        obtain ⟨entry, he⟩ := Option.isSome_iff_exists.1 hc
        simp [he]
      · simp [h]
  · next hc =>
      have none : t.get? name = none := by simpa [contains] using hc
      rw [get?, List.lookup_append]
      by_cases h : other = name
      · subst h
        rw [get?] at none
        simp [get?, none]
      · cases hl : t.entries.lookup other <;>
          simp [get?, hl, h, List.lookup_cons, beq_eq_false_iff_ne.2 h]

theorem nodup_insert {t : OrderedTable α} (h : t.keys.Nodup) (name : String) (entry : α) :
    (t.insert name entry).keys.Nodup := by
  rw [keys_insert]
  exact (h.filter _).append (List.nodup_singleton name) (by simp)

theorem erase_erase_self (t : OrderedTable α) (name : String) :
    (t.erase name).erase name = t.erase name := by
  simp [erase]

theorem erase_insert_self (t : OrderedTable α) (name : String) (entry : α) :
    (t.insert name entry).erase name = t.erase name := by
  simp [erase, insert]

theorem erase_insert_of_ne (t : OrderedTable α) {name other : String} (entry : α)
    (h : other ≠ name) : (t.insert other entry).erase name = (t.erase name).insert other entry := by
  have swap : (t.entries.filter (·.1 != other)).filter (·.1 != name) =
      (t.entries.filter (·.1 != name)).filter (·.1 != other) := List.filter_comm ..
  simp [erase, insert, h, swap]

/-! ## All entries of a table -/

theorem insertAll_cons (t : OrderedTable α) (e : String × α) (rest : List (String × α)) :
    t.insertAll ⟨e :: rest⟩ = (t.insert e.1 e.2).insertAll ⟨rest⟩ :=
  rfl

theorem insertAll_append (t : OrderedTable α) (es es' : List (String × α)) :
    t.insertAll ⟨es ++ es'⟩ = (t.insertAll ⟨es⟩).insertAll ⟨es'⟩ :=
  List.foldl_append

/-- What has no name twice is set as it is, and keeps its order. -/
theorem keys_insertAll (t : OrderedTable α) {other : OrderedTable α} (h : other.keys.Nodup) :
    (t.insertAll other).keys = t.keys.filter (!other.contains ·) ++ other.keys := by
  obtain ⟨es⟩ := other
  induction es generalizing t with
  | nil => simp [insertAll, contains, get?, keys]
  | cons e es ih =>
      obtain ⟨hnot, hes⟩ := List.nodup_cons.1 h
      have last : contains ⟨es⟩ e.1 = false := by
        rw [contains, get?_eq_none_iff.2 hnot, Option.isSome_none]
      have either (name : String) :
          contains ⟨e :: es⟩ name = (name == e.1 || contains ⟨es⟩ name) := by
        rw [contains, get?_cons]
        by_cases hn : name = e.1
        · simp [hn]
        · simp [hn, contains]
      rw [insertAll_cons, ih _ hes, keys_insert, List.filter_append, List.filter_filter]
      simp [either, last, keys, bne, Bool.and_comm]

theorem get?_insertAll (t : OrderedTable α) {other : OrderedTable α} (h : other.keys.Nodup)
    (name : String) : (t.insertAll other).get? name = (other.get? name).or (t.get? name) := by
  obtain ⟨es⟩ := other
  induction es generalizing t with
  | nil => rfl
  | cons e es ih =>
      obtain ⟨hnot, hes⟩ := List.nodup_cons.1 h
      rw [insertAll_cons, ih _ hes, get?_insert, get?_cons]
      by_cases hn : name = e.1
      · rw [if_pos hn, if_pos hn, hn, get?_eq_none_iff.2 hnot]
        rfl
      · rw [if_neg hn, if_neg hn]

theorem nodup_insertAll {t : OrderedTable α} (h : t.keys.Nodup) (other : OrderedTable α) :
    (t.insertAll other).keys.Nodup := by
  obtain ⟨es⟩ := other
  induction es generalizing t with
  | nil => exact h
  | cons e es ih => exact ih (nodup_insert h e.1 e.2)

theorem erase_insertAll (t other : OrderedTable α) (name : String) :
    (t.insertAll other).erase name = (t.erase name).insertAll (other.erase name) := by
  obtain ⟨es⟩ := other
  induction es generalizing t with
  | nil => rfl
  | cons e es ih =>
      rw [insertAll_cons, ih]
      by_cases he : e.1 = name
      · subst he
        rw [erase_insert_self]
        simp [erase]
      · have kept : (⟨e :: es⟩ : OrderedTable α).erase name =
            ⟨e :: ((⟨es⟩ : OrderedTable α).erase name).entries⟩ := by
          simp [erase, he]
        rw [kept, insertAll_cons, erase_insert_of_ne _ _ he]

/-- An entry that has been set in the other table is set last. -/
theorem insertAll_insert (t other : OrderedTable α) (name : String) (entry : α) :
    t.insertAll (other.insert name entry) = (t.insertAll other).insert name entry := by
  have last : t.insertAll (other.insert name entry) =
      (t.insertAll (other.erase name)).insert name entry := insertAll_append t _ [(name, entry)]
  have erased : (t.insertAll (other.erase name)).erase name = (t.insertAll other).erase name := by
    rw [erase_insertAll, erase_insertAll, erase_erase_self]
  rw [last, insert, insert, erased]

/-- Whether tables are set one after the other or first in one another makes no difference. -/
theorem insertAll_assoc (t b c : OrderedTable α) :
    t.insertAll (b.insertAll c) = (t.insertAll b).insertAll c := by
  obtain ⟨es⟩ := c
  induction es using List.reverseRecOn with
  | nil => rfl
  | append_singleton es e ih =>
      rw [insertAll_append, insertAll_append, ← ih]
      exact insertAll_insert t _ e.1 e.2

end NodeScript.OrderedTable
