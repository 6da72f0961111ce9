import Overlay.Proofs.Value.Conversion
import Overlay.Proofs.Value.Reading

/-!
# Converting what a literal was read as

A value is written as a literal that forgets which kind of collection it is, and infinite numbers.
Reading the literal and converting to the type of the value brings the kind back.

* `Plain` values are those that expressions and documents write.
* `finitePart` is a value with `null` in place of every infinite number.
* `rereads_of_convert`: what a plain value is converted to, written as a literal and read again,
  converts to its own finite part.
-/

namespace Overlay.Value

open Numeric (Number)

/-! ## Plain values -/

/-- Whether a value is one that expressions and documents write: its sequences are tuples, its
dictionaries are objects with ascending keys, and it has no unknown parts and no capsules. -/
def Plain : Value → Prop
  | null | bool _ | number _ | string _ => True
  | tuple items => itemsPlain items
  | object entries => Dict.Ascending entries ∧ entriesPlain entries
  | unknown | list _ | set _ | map _ | capsule _ => False
where
  /-- Whether all items are plain. -/
  itemsPlain : List Value → Prop
  | [] => True
  | v :: vs => v.Plain ∧ itemsPlain vs
  /-- Whether the values of all entries are plain. -/
  entriesPlain : List (String × Value) → Prop
  | [] => True
  | (_, v) :: rest => v.Plain ∧ entriesPlain rest

/-- The value with `null` in place of every infinite number. Items of a set that this makes equal
are one item. -/
def finitePart : Value → Value
  | number (.infinite _) => null
  | list items => list (finiteItems items)
  | set items => set (distinct (finiteItems items))
  | tuple items => tuple (finiteItems items)
  | map entries => map (finiteEntries entries)
  | object entries => object (finiteEntries entries)
  | v => v
where
  /-- The items with `null` in place of every infinite number. -/
  finiteItems : List Value → List Value
  | [] => []
  | v :: vs => v.finitePart :: finiteItems vs
  /-- The entries with `null` in place of every infinite number. -/
  finiteEntries : List (String × Value) → List (String × Value)
  | [] => []
  | (key, v) :: rest => (key, v.finitePart) :: finiteEntries rest

/-- Whether no number in the value is infinite. -/
def IsFinite : Value → Prop
  | number (.infinite _) => False
  | null | unknown | bool _ | number (.finite _) | string _ | capsule _ => True
  | list items | set items | tuple items => itemsFinite items
  | map entries | object entries => entriesFinite entries
where
  /-- Whether it is so in all items. -/
  itemsFinite : List Value → Prop
  | [] => True
  | v :: vs => v.IsFinite ∧ itemsFinite vs
  /-- Whether it is so in the values of all entries. -/
  entriesFinite : List (String × Value) → Prop
  | [] => True
  | (_, v) :: rest => v.IsFinite ∧ entriesFinite rest

section Parts

variable {items : List Value} {entries : List (String × Value)}

theorem itemsPlain_iff : Plain.itemsPlain items ↔ ∀ v ∈ items, v.Plain := by
  induction items with
  | nil => simp [Plain.itemsPlain]
  | cons v vs ih => rw [List.forall_mem_cons, Plain.itemsPlain, ih]

theorem entriesPlain_iff : Plain.entriesPlain entries ↔ ∀ e ∈ entries, e.2.Plain := by
  induction entries with
  | nil => simp [Plain.entriesPlain]
  | cons e rest ih => rw [List.forall_mem_cons, Plain.entriesPlain, ih]

theorem itemsOrdered_iff : Ordered.itemsOrdered items ↔ ∀ v ∈ items, v.Ordered := by
  induction items with
  | nil => simp [Ordered.itemsOrdered]
  | cons v vs ih => rw [List.forall_mem_cons, Ordered.itemsOrdered, ih]

theorem entriesOrdered_iff : Ordered.entriesOrdered entries ↔ ∀ e ∈ entries, e.2.Ordered := by
  induction entries with
  | nil => simp [Ordered.entriesOrdered]
  | cons e rest ih => rw [List.forall_mem_cons, Ordered.entriesOrdered, ih]

theorem itemsFinite_iff : IsFinite.itemsFinite items ↔ ∀ v ∈ items, v.IsFinite := by
  induction items with
  | nil => simp [IsFinite.itemsFinite]
  | cons v vs ih => rw [List.forall_mem_cons, IsFinite.itemsFinite, ih]

theorem entriesFinite_iff : IsFinite.entriesFinite entries ↔ ∀ e ∈ entries, e.2.IsFinite := by
  induction entries with
  | nil => simp [IsFinite.entriesFinite]
  | cons e rest ih => rw [List.forall_mem_cons, IsFinite.entriesFinite, ih]

theorem finiteItems_eq_self (h : ∀ v ∈ items, v.finitePart = v) :
    finitePart.finiteItems items = items := by
  induction items with
  | nil => rfl
  | cons v vs ih =>
    rw [List.forall_mem_cons] at h
    rw [finitePart.finiteItems, h.1, ih h.2]

theorem finiteEntries_eq_self (h : ∀ e ∈ entries, e.2.finitePart = e.2) :
    finitePart.finiteEntries entries = entries := by
  induction entries with
  | nil => rfl
  | cons e rest ih =>
    rw [List.forall_mem_cons] at h
    rw [finitePart.finiteEntries, h.1, ih h.2]

end Parts

mutual

/-- The literal of a plain value keeps all but infinite numbers. -/
theorem readBack_of_plain : ∀ {v : Value}, v.Plain → v.readBack = v.finitePart ∧ v.Ordered
  | null, _ | bool _, _ | string _, _ => ⟨rfl, trivial⟩
  | number (.infinite _), _ | number (.finite _), _ => ⟨rfl, trivial⟩
  | tuple items, h => by
    rcases readItems_of_plain h with ⟨hread, hordered⟩
    exact ⟨congrArg tuple hread, hordered⟩
  | object entries, h => by
    rcases readEntries_of_plain h.2 with ⟨hread, hordered⟩
    exact ⟨congrArg object hread, h.1, hordered⟩

theorem readItems_of_plain : ∀ {items : List Value}, Plain.itemsPlain items →
    readBack.readItems items = finitePart.finiteItems items ∧ Ordered.itemsOrdered items
  | [], _ => ⟨rfl, trivial⟩
  | v :: vs, h => by
    rcases readBack_of_plain h.1 with ⟨hread, hordered⟩
    rcases readItems_of_plain h.2 with ⟨hreads, hordereds⟩
    refine ⟨?_, hordered, hordereds⟩
    rw [readBack.readItems, finitePart.finiteItems, hread, hreads]

theorem readEntries_of_plain : ∀ {entries : List (String × Value)}, Plain.entriesPlain entries →
    readBack.readEntries entries = finitePart.finiteEntries entries ∧
      Ordered.entriesOrdered entries
  | [], _ => ⟨rfl, trivial⟩
  | (key, v) :: rest, h => by
    rcases readBack_of_plain h.1 with ⟨hread, hordered⟩
    rcases readEntries_of_plain h.2 with ⟨hreads, hordereds⟩
    refine ⟨?_, hordered, hordereds⟩
    rw [readBack.readEntries, finitePart.finiteEntries, hread, hreads]

end

mutual

/-- A plain value without infinite numbers is its own finite part. -/
theorem finitePart_of_plain : ∀ {v : Value}, v.Plain → v.IsFinite → v.finitePart = v
  | null, _, _ | bool _, _, _ | string _, _, _ | number (.finite _), _, _ => rfl
  | tuple _, h, hfinite => congrArg tuple (finiteItems_of_plain h hfinite)
  | object _, h, hfinite => congrArg object (finiteEntries_of_plain h.2 hfinite)

theorem finiteItems_of_plain : ∀ {items : List Value}, Plain.itemsPlain items →
    IsFinite.itemsFinite items → finitePart.finiteItems items = items
  | [], _, _ => rfl
  | v :: vs, h, hfinite => by
    rw [finitePart.finiteItems, finitePart_of_plain h.1 hfinite.1,
      finiteItems_of_plain h.2 hfinite.2]

theorem finiteEntries_of_plain : ∀ {entries : List (String × Value)}, Plain.entriesPlain entries →
    IsFinite.entriesFinite entries → finitePart.finiteEntries entries = entries
  | [], _, _ => rfl
  | (key, v) :: rest, h, hfinite => by
    rw [finitePart.finiteEntries, finitePart_of_plain h.1 hfinite.1,
      finiteEntries_of_plain h.2 hfinite.2]

end

/-! ## Converting -/

/-- Whether the value is ordered, its literal is read as a value that converts to its finite part,
and that is the value itself if no number in it is infinite. -/
structure Rereads (t : ValueType) (w : Value) : Prop where
  ordered : w.Ordered
  convert : w.readBack.convert t = .ok w.finitePart
  same : w.IsFinite → w.finitePart = w

section Sequences

variable {t : ValueType} {ws : List Value}

theorem convertItems_rereads (h : ∀ w ∈ ws, Rereads t w) (index : Nat) :
    convertItems (fun x => x.convert t) index (readBack.readItems ws) =
      .ok (finitePart.finiteItems ws) := by
  induction ws generalizing index with
  | nil => rfl
  | cons w ws ih =>
    rw [List.forall_mem_cons] at h
    exact convertItems_cons.2 ⟨_, _, h.1.convert, ih h.2 _, rfl⟩

theorem convertEntries_rereads {entries : Dict Value} (h : ∀ e ∈ entries, Rereads t e.2) :
    convertEntries (fun x => x.convert t) (readBack.readEntries entries) =
      .ok (finitePart.finiteEntries entries) := by
  induction entries with
  | nil => rfl
  | cons e rest ih =>
    rw [List.forall_mem_cons] at h
    exact convertEntries_cons.2 ⟨_, _, h.1.convert, ih h.2, rfl⟩

theorem finiteItems_of_rereads (h : ∀ w ∈ ws, Rereads t w) (hfinite : IsFinite.itemsFinite ws) :
    finitePart.finiteItems ws = ws :=
  finiteItems_eq_self fun w hw => (h w hw).same (itemsFinite_iff.1 hfinite w hw)

theorem finiteEntries_of_rereads {entries : Dict Value} (h : ∀ e ∈ entries, Rereads t e.2)
    (hfinite : IsFinite.entriesFinite entries) : finitePart.finiteEntries entries = entries :=
  finiteEntries_eq_self fun e he => (h e he).same (entriesFinite_iff.1 hfinite e he)

theorem find?_readEntries {entries : Dict Value} {key : String} {v : Value}
    (h : entries.find? key = some v) :
    Dict.find? key (readBack.readEntries entries) = some v.readBack := by
  induction entries with
  | nil => cases h
  | cons e rest ih =>
    rcases e with ⟨k, w⟩
    rw [readBack.readEntries, Dict.find?]
    rw [Dict.find?] at h
    split_ifs at h ⊢ with hkey
    · cases h
      rfl
    · exact ih h

theorem rereads_list (h : ∀ w ∈ ws, Rereads t w) : Rereads (.list t) (list ws) where
  ordered := itemsOrdered_iff.2 fun w hw => (h w hw).ordered
  convert := convert_list.2 (.inr ⟨_, rfl, _, convertItems_rereads h 0, rfl⟩)
  same := fun hfinite => congrArg list (finiteItems_of_rereads h hfinite)

/-- No item stands twice in a set, so converting it again drops none. -/
theorem rereads_set (h : ∀ w ∈ ws, Rereads t w) : Rereads (.set t) (set (distinct ws)) := by
  have hkept : ∀ w ∈ distinct ws, Rereads t w := fun w hw => h w (mem_of_mem_distinct hw)
  constructor
  · exact itemsOrdered_iff.2 fun w hw => (hkept w hw).ordered
  · exact convert_set.2 (.inr ⟨_, rfl, _, convertItems_rereads hkept 0, rfl⟩)
  · intro hfinite
    rw [finitePart, finiteItems_of_rereads hkept hfinite, distinct_eq_self (nodup_distinct ws)]

theorem rereads_map {entries : Dict Value} (hasc : Dict.Ascending entries)
    (h : ∀ e ∈ entries, Rereads t e.2) : Rereads (.map t) (map entries) where
  ordered := ⟨hasc, entriesOrdered_iff.2 fun e he => (h e he).ordered⟩
  convert := convert_map.2 (.inr ⟨_, rfl, _, convertEntries_rereads h, rfl⟩)
  same := fun hfinite => congrArg map (finiteEntries_of_rereads h hfinite)

end Sequences

theorem plain_of_items? {v : Value} (hv : v.Plain) {items : List Value}
    (h : v.items? = some items) : ∀ x ∈ items, x.Plain := by
  cases v <;> simp only [items?, reduceCtorEq, Option.some.injEq] at h <;>
    first | exact hv.elim | (subst h; exact itemsPlain_iff.1 hv)

theorem plain_of_entries? {v : Value} (hv : v.Plain) {entries : Dict Value}
    (h : v.entries? = some entries) : Dict.Ascending entries ∧ ∀ e ∈ entries, e.2.Plain := by
  cases v <;> simp only [entries?, reduceCtorEq, Option.some.injEq] at h <;>
    first | exact hv.elim | (subst h; exact ⟨hv.1, entriesPlain_iff.1 hv.2⟩)

/-- An absent plain value is `null`. -/
theorem rereads_of_absent {t : ValueType} {v : Value} (hv : v.Plain) (h : v.isAbsent = true) :
    Rereads t v := by
  cases v <;> simp only [isAbsent, Bool.false_eq_true] at h
  · exact ⟨trivial, convert_null t, fun _ => rfl⟩
  · exact hv.elim

mutual

/-- What a plain value is converted to, is converted to its finite part when its literal is read. -/
theorem rereads_of_convert : ∀ (t : ValueType) {v w : Value}, t.Ordered → v.Plain →
    v.convert t = .ok w → Rereads t w
  | .any, v, w, _, hv, h => by
    cases h
    rcases readBack_of_plain hv with ⟨hread, hordered⟩
    exact ⟨hordered, congrArg Except.ok hread, finitePart_of_plain hv⟩
  | .string, v, w, _, hv, h => by
    rcases convert_string.1 h with ⟨habsent, rfl⟩ | ⟨-, hw⟩
    · exact rereads_of_absent hv habsent
    · rcases toStringValue_eq_ok hw with ⟨s, rfl⟩
      exact ⟨trivial, rfl, fun _ => rfl⟩
  | .number, v, w, _, hv, h => by
    rcases convert_number.1 h with ⟨habsent, rfl⟩ | ⟨-, hw⟩
    · exact rereads_of_absent hv habsent
    · rcases toNumberValue_eq_ok hw with ⟨n, rfl⟩
      cases n with
      | infinite negative => exact ⟨trivial, rfl, False.elim⟩
      | finite d => exact ⟨trivial, rfl, fun _ => rfl⟩
  | .bool, v, w, _, hv, h => by
    rcases convert_bool.1 h with ⟨habsent, rfl⟩ | ⟨-, hw⟩
    · exact rereads_of_absent hv habsent
    · rcases toBoolValue_eq_ok hw with ⟨b, rfl⟩
      exact ⟨trivial, rfl, fun _ => rfl⟩
  | .list t, v, w, ht, hv, h => by
    have ht : t.Ordered := ht
    rcases convert_list.1 h with ⟨habsent, rfl⟩ | ⟨items, hitems, ws, hws, rfl⟩
    · exact rereads_of_absent hv habsent
    · have hplain := plain_of_items? hv hitems
      exact rereads_list
        (forall_of_convertItems hws fun x hx y => rereads_of_convert t ht (hplain x hx))
  | .set t, v, w, ht, hv, h => by
    have ht : t.Ordered := ht
    rcases convert_set.1 h with ⟨habsent, rfl⟩ | ⟨items, hitems, ws, hws, rfl⟩
    · exact rereads_of_absent hv habsent
    · have hplain := plain_of_items? hv hitems
      exact rereads_set
        (forall_of_convertItems hws fun x hx y => rereads_of_convert t ht (hplain x hx))
  | .map t, v, w, ht, hv, h => by
    have ht : t.Ordered := ht
    rcases convert_map.1 h with ⟨habsent, rfl⟩ | ⟨entries, hentries, ws, hws, rfl⟩
    · exact rereads_of_absent hv habsent
    · rcases plain_of_entries? hv hentries with ⟨hasc, hplain⟩
      have hkept : Dict.Ascending ws := by rwa [Dict.Ascending, keys_of_convertEntries hws]
      exact rereads_map hkept
        (forall_of_convertEntries hws fun e he y => rereads_of_convert t ht (hplain e he))
  | .tuple ts, v, w, ht, hv, h => by
    have ht : ValueType.Ordered.elementsOrdered ts := ht
    rcases convert_tuple.1 h with ⟨habsent, rfl⟩ | ⟨items, hitems, hlength, ws, hws, rfl⟩
    · exact rereads_of_absent hv habsent
    · rcases rereads_of_convertTuple ts ht (plain_of_items? hv hitems) hlength hws with
        ⟨hordered, hreads, hagain, hsame⟩
      constructor
      · exact hordered
      · exact convert_tuple.2 (.inr ⟨_, rfl, hreads, _, hagain 0, rfl⟩)
      · exact fun hfinite => congrArg tuple (hsame hfinite)
  | .object ts, v, w, ht, hv, h => by
    rcases convert_object.1 h with ⟨habsent, rfl⟩ | ⟨entries, hentries, ws, hws, rfl⟩
    · exact rereads_of_absent hv habsent
    · rcases plain_of_entries? hv hentries with ⟨-, hplain⟩
      rcases rereads_of_convertObject ts ht.2 hplain hws with ⟨hkeys, hordered, hagain, hsame⟩
      have hasc : Dict.Ascending ws := by
        rw [Dict.Ascending, hkeys]
        exact ht.1
      -- The declared names stand once, so every attribute is found under its own name.
      have hfound : ∀ e ∈ ws, Dict.find? e.1 (readBack.readEntries ws) = some e.2.readBack := by
        intro e he
        exact find?_readEntries (Dict.find?_of_mem (Dict.nodup_keys hasc) he)
      constructor
      · exact ⟨hasc, hordered⟩
      · exact convert_object.2 (.inr ⟨_, rfl, _, hagain hfound, rfl⟩)
      · exact fun hfinite => congrArg object (hsame hfinite)

theorem rereads_of_convertTuple : ∀ (ts : List ValueType) {index : Nat} {vs ws : List Value},
    ValueType.Ordered.elementsOrdered ts → (∀ v ∈ vs, v.Plain) → vs.length = ts.length →
      convert.convertTuple index ts vs = .ok ws →
        Ordered.itemsOrdered ws ∧ (readBack.readItems ws).length = ts.length ∧
          (∀ index, convert.convertTuple index ts (readBack.readItems ws) =
            .ok (finitePart.finiteItems ws)) ∧
          (IsFinite.itemsFinite ws → finitePart.finiteItems ws = ws)
  | [], _, vs, ws, _, _, _, h => by
    cases h
    exact ⟨trivial, rfl, fun _ => rfl, fun _ => rfl⟩
  | t :: ts, _, [], ws, _, _, hlength, _ => by cases hlength
  | t :: ts, index, v :: vs, ws, ht, hvs, hlength, h => by
    rw [List.forall_mem_cons] at hvs
    rcases convertTuple_cons.1 h with ⟨x, xs, hx, hxs, rfl⟩
    have hfirst := rereads_of_convert t ht.1 hvs.1 hx
    rcases rereads_of_convertTuple ts ht.2 hvs.2 (Nat.succ.inj hlength) hxs with
      ⟨hordered, hreads, hagain, hsame⟩
    refine ⟨⟨hfirst.ordered, hordered⟩, congrArg Nat.succ hreads, ?_, ?_⟩
    · intro index
      exact convertTuple_cons.2 ⟨_, _, hfirst.convert, hagain (index + 1), rfl⟩
    · intro hfinite
      rw [finitePart.finiteItems, hfirst.same hfinite.1, hsame hfinite.2]

theorem rereads_of_convertObject : ∀ (ts : List (String × ValueType)) {entries ws : Dict Value},
    ValueType.Ordered.attributesOrdered ts → (∀ e ∈ entries, e.2.Plain) →
      convert.convertObject entries ts = .ok ws →
        Dict.keys ws = Dict.keys ts ∧ Ordered.entriesOrdered ws ∧
          (∀ {all : Dict Value}, (∀ e ∈ ws, all.find? e.1 = some e.2.readBack) →
            convert.convertObject all ts = .ok (finitePart.finiteEntries ws)) ∧
          (IsFinite.entriesFinite ws → finitePart.finiteEntries ws = ws)
  | [], _, ws, _, _, h => by
    cases h
    exact ⟨rfl, trivial, fun _ => rfl, fun _ => rfl⟩
  | (name, t) :: ts, entries, ws, ht, hentries, h => by
    rcases convertObject_cons.1 h with ⟨v, x, xs, hfind, hx, hxs, rfl⟩
    have hfirst := rereads_of_convert t ht.1 (hentries _ (Dict.mem_of_find? hfind)) hx
    rcases rereads_of_convertObject ts ht.2 hentries hxs with
      ⟨hkeys, hordered, hagain, hsame⟩
    refine ⟨congrArg (name :: ·) hkeys, ⟨hfirst.ordered, hordered⟩, ?_, ?_⟩
    · intro all hall
      rw [List.forall_mem_cons] at hall
      exact convertObject_cons.2 ⟨_, _, _, hall.1, hfirst.convert, hagain hall.2, rfl⟩
    · intro hfinite
      rw [finitePart.finiteEntries, hfirst.same hfinite.1, hsame hfinite.2]

end

end Overlay.Value
