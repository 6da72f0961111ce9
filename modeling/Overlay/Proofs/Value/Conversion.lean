import Overlay.Proofs.ValueType.Ordered
import Overlay.Value.Conversion

/-!
# Conversion is stable

* `Conforms` says what a conversion to a type makes: a value of the type's kind whose parts conform,
  or an absent value.
* `conforms_of_convert`: the result of a conversion conforms to the type.
* `convert_of_conforms`: a value that conforms stays as it is.
* So a result that is converted again does not change (`convert_again`): conversion is a retraction
  onto the values that conform (`convert_retraction`).
-/

namespace Overlay

namespace Value

/-! ## Values that conform -/

/-- Whether a value is what the type asks for: it is absent, or the type is `any`, or it has the
type's kind and its parts conform. -/
def Conforms (v : Value) : ValueType → Prop
  | .any => True
  | .string => v.isAbsent ∨ ∃ s, v = .string s
  | .number => v.isAbsent ∨ ∃ n, v = .number n
  | .bool => v.isAbsent ∨ ∃ b, v = .bool b
  | .list t => v.isAbsent ∨ ∃ items, v = .list items ∧ ∀ x ∈ items, Conforms x t
  | .set t => v.isAbsent ∨ ∃ items, v = .set items ∧ items.Nodup ∧ ∀ x ∈ items, Conforms x t
  | .map t => v.isAbsent ∨ ∃ entries, v = .map entries ∧ ∀ e ∈ entries, Conforms e.2 t
  | .tuple ts => v.isAbsent ∨ ∃ items, v = .tuple items ∧ itemsConform items ts
  | .object ts => v.isAbsent ∨ ∃ entries, v = .object entries ∧ entriesConform entries ts
where
  /-- Whether the items conform to the types one by one. -/
  itemsConform : List Value → List ValueType → Prop
  | [], [] => True
  | x :: xs, t :: ts => Conforms x t ∧ itemsConform xs ts
  | _, _ => False
  /-- Whether the entries are the declared attributes one by one. -/
  entriesConform : List (String × Value) → List (String × ValueType) → Prop
  | [], [] => True
  | (k, x) :: xs, (name, t) :: ts => k = name ∧ Conforms x t ∧ entriesConform xs ts
  | _, _ => False

/-! ## Parts of a conversion -/

section Parts

variable {f : Value → Except ValueFault Value} {v w : Value} {type : ValueType}

/-- A guarded conversion gives an absent value back, and else what it guards. -/
theorem guarded_eq_ok {g : Except ValueFault Value} (hcapsule : v.isCapsule → g ≠ .ok w) :
    convert.guarded v type g = .ok w ↔
      v.isAbsent ∧ w = v ∨ v.isAbsent = false ∧ g = .ok w := by
  unfold convert.guarded
  split_ifs with habsent hisCapsule
  · simp [habsent, eq_comm]
  · simp [habsent, hcapsule hisCapsule]
  · simp [habsent]

/-- A conversion of the items of a sequence. -/
theorem guarded_items {g : List Value → Except ValueFault Value} :
    convert.guarded v type (requireItems type v >>= g) = .ok w ↔
      v.isAbsent ∧ w = v ∨ ∃ items, v.items? = some items ∧ g items = .ok w := by
  rw [guarded_eq_ok]
  · cases v <;> simp [requireItems, items?, isAbsent, bind, Except.bind]
  · intro hcapsule
    cases v <;> simp_all [isCapsule, requireItems, items?, bind, Except.bind]

/-- A conversion of the entries of a dictionary. -/
theorem guarded_entries {g : Dict Value → Except ValueFault Value} :
    convert.guarded v type (requireEntries type v >>= g) = .ok w ↔
      v.isAbsent ∧ w = v ∨ ∃ entries, v.entries? = some entries ∧ g entries = .ok w := by
  rw [guarded_eq_ok]
  · cases v <;> simp [requireEntries, entries?, isAbsent, bind, Except.bind]
  · intro hcapsule
    cases v <;> simp_all [isCapsule, requireEntries, entries?, bind, Except.bind]

theorem mapError_eq_ok {α ε ε' : Type} {x : Except ε α} {g : ε → ε'} {a : α} :
    x.mapError g = .ok a ↔ x = .ok a := by
  cases x <;> simp [Except.mapError]

theorem convertItems_cons {index : Nat} {vs : List Value} {ws : List Value} :
    convertItems f index (v :: vs) = .ok ws ↔
      ∃ x xs, f v = .ok x ∧ convertItems f (index + 1) vs = .ok xs ∧ ws = x :: xs := by
  rw [convertItems]
  cases hv : f v with
  | error e => simp [Except.mapError, bind, Except.bind]
  | ok x =>
    cases hvs : convertItems f (index + 1) vs with
    | error e => simp [Except.mapError, bind, Except.bind]
    | ok xs => simp [Except.mapError, bind, Except.bind, pure, Except.pure, eq_comm]

theorem convertEntries_cons {k : String} {rest ws : Dict Value} :
    convertEntries f ((k, v) :: rest) = .ok ws ↔
      ∃ x xs, f v = .ok x ∧ convertEntries f rest = .ok xs ∧ ws = (k, x) :: xs := by
  rw [convertEntries]
  cases hv : f v with
  | error e => simp [Except.mapError, bind, Except.bind]
  | ok x =>
    cases hrest : convertEntries f rest with
    | error e => simp [Except.mapError, bind, Except.bind]
    | ok xs => simp [Except.mapError, bind, Except.bind, pure, Except.pure, eq_comm]

theorem convertTuple_cons {index : Nat} {t : ValueType} {ts : List ValueType} {vs ws : List Value} :
    convert.convertTuple index (t :: ts) (v :: vs) = .ok ws ↔
      ∃ x xs, v.convert t = .ok x ∧ convert.convertTuple (index + 1) ts vs = .ok xs ∧
        ws = x :: xs := by
  rw [convert.convertTuple]
  cases hv : v.convert t with
  | error e => simp [Except.mapError, bind, Except.bind]
  | ok x =>
    cases hvs : convert.convertTuple (index + 1) ts vs with
    | error e => simp [Except.mapError, bind, Except.bind]
    | ok xs => simp [Except.mapError, bind, Except.bind, pure, Except.pure, eq_comm]

theorem convertObject_cons {entries ws : Dict Value} {name : String} {t : ValueType}
    {rest : List (String × ValueType)} :
    convert.convertObject entries ((name, t) :: rest) = .ok ws ↔
      ∃ v x xs, entries.find? name = some v ∧ v.convert t = .ok x ∧
        convert.convertObject entries rest = .ok xs ∧ ws = (name, x) :: xs := by
  rw [convert.convertObject]
  cases hfind : entries.find? name with
  | none => simp
  | some v =>
    cases hv : v.convert t with
    | error e => simp [Except.mapError, bind, Except.bind, hv]
    | ok x =>
      cases hrest : convert.convertObject entries rest with
      | error e => simp [Except.mapError, bind, Except.bind, hv]
      | ok xs => simp [Except.mapError, bind, Except.bind, pure, Except.pure, hv, eq_comm]

/-- What holds of every converted value holds of every item of a converted sequence. -/
theorem forall_of_convertItems {P : Value → Prop} {index : Nat} {vs ws : List Value}
    (h : convertItems f index vs = .ok ws) (hf : ∀ v ∈ vs, ∀ w, f v = .ok w → P w) :
    ∀ w ∈ ws, P w := by
  induction vs generalizing index ws with
  | nil =>
    cases h
    simp
  | cons v vs ih =>
    rw [List.forall_mem_cons] at hf
    rcases convertItems_cons.1 h with ⟨x, xs, hx, hxs, rfl⟩
    exact List.forall_mem_cons.2 ⟨hf.1 x hx, ih hxs hf.2⟩

theorem forall_of_convertEntries {P : Value → Prop} {entries ws : Dict Value}
    (h : convertEntries f entries = .ok ws) (hf : ∀ e ∈ entries, ∀ w, f e.2 = .ok w → P w) :
    ∀ e ∈ ws, P e.2 := by
  induction entries generalizing ws with
  | nil =>
    cases h
    simp
  | cons e rest ih =>
    rcases e with ⟨k, v⟩
    rw [List.forall_mem_cons] at hf
    rcases convertEntries_cons.1 h with ⟨x, xs, hx, hxs, rfl⟩
    exact List.forall_mem_cons.2 ⟨hf.1 x hx, ih hxs hf.2⟩

theorem keys_of_convertEntries {entries ws : Dict Value} (h : convertEntries f entries = .ok ws) :
    Dict.keys ws = Dict.keys entries := by
  induction entries generalizing ws with
  | nil =>
    cases h
    rfl
  | cons e rest ih =>
    rcases e with ⟨k, v⟩
    rcases convertEntries_cons.1 h with ⟨x, xs, -, hxs, rfl⟩
    exact congrArg (k :: ·) (ih hxs)

/-- Items that stay as they are make up a sequence that does. -/
theorem convertItems_self {vs : List Value} (h : ∀ v ∈ vs, f v = .ok v) (index : Nat) :
    convertItems f index vs = .ok vs := by
  induction vs generalizing index with
  | nil => rfl
  | cons v vs ih =>
    rw [List.forall_mem_cons] at h
    exact convertItems_cons.2 ⟨v, vs, h.1, ih h.2 _, rfl⟩

theorem convertEntries_self {entries : Dict Value} (h : ∀ e ∈ entries, f e.2 = .ok e.2) :
    convertEntries f entries = .ok entries := by
  induction entries with
  | nil => rfl
  | cons e rest ih =>
    rw [List.forall_mem_cons] at h
    exact convertEntries_cons.2 ⟨e.2, rest, h.1, ih h.2, rfl⟩

end Parts

/-! ## Equal items -/

/-- What is kept while equal items are left out, the latest first. -/
def keep (kept : List Value) (v : Value) : List Value := if v ∈ kept then kept else v :: kept

theorem distinct_eq (items : List Value) : distinct items = (items.foldl keep []).reverse := rfl

theorem nodup_distinct (items : List Value) : (distinct items).Nodup := by
  have hrun : ∀ (items kept : List Value), kept.Nodup → (items.foldl keep kept).Nodup := by
    intro items
    induction items with
    | nil => exact fun kept h => h
    | cons v vs ih =>
      intro kept h
      refine ih _ ?_
      unfold keep
      split_ifs with hmem
      · exact h
      · exact List.nodup_cons.2 ⟨hmem, h⟩
  exact List.nodup_reverse.2 (hrun items [] List.nodup_nil)

theorem mem_of_mem_distinct {v : Value} {items : List Value} (h : v ∈ distinct items) :
    v ∈ items := by
  have hrun : ∀ items kept : List Value, v ∈ items.foldl keep kept → v ∈ kept ∨ v ∈ items := by
    intro items
    induction items with
    | nil => exact fun kept h => .inl h
    | cons x xs ih =>
      intro kept h
      rcases ih _ h with hkept | hxs
      · unfold keep at hkept
        split_ifs at hkept with hmem
        · exact .inl hkept
        · rcases List.mem_cons.1 hkept with rfl | hkept
          · exact .inr List.mem_cons_self
          · exact .inl hkept
      · exact .inr (List.mem_cons_of_mem _ hxs)
  rcases hrun items [] (List.mem_reverse.1 h) with hnil | hmem
  · cases hnil
  · exact hmem

/-- Items without equal ones are all kept. -/
theorem distinct_eq_self {items : List Value} (h : items.Nodup) : distinct items = items := by
  have hrun : ∀ items kept : List Value, (kept.reverse ++ items).Nodup →
      items.foldl keep kept = items.reverse ++ kept := by
    intro items
    induction items with
    | nil => simp
    | cons v vs ih =>
      intro kept h
      have hfresh : v ∉ kept := by
        have hdisjoint := (List.nodup_append.1 h).2.2
        intro hmem
        exact hdisjoint v (List.mem_reverse.2 hmem) v List.mem_cons_self rfl
      rw [List.foldl_cons, keep, if_neg hfresh, ih _ (by simpa using h)]
      simp
  rw [distinct_eq, hrun items [] h]
  simp

/-! ## Conversions to each kind of type -/

section Kinds

variable {v w : Value} {t : ValueType}

/-- A conversion of which only the last step is left: to put its parts together. -/
theorem bind_pure_eq_ok {α : Type} {x : Except ValueFault α} {g : α → Value} :
    (do return g (← x) : Except ValueFault Value) = .ok w ↔ ∃ a, x = .ok a ∧ w = g a := by
  cases x <;> simp [bind, Except.bind, pure, Except.pure, eq_comm]

theorem toStringValue_eq_ok (h : v.toStringValue = .ok w) : ∃ s, w = string s := by
  cases v <;> simp only [toStringValue, Except.ok.injEq, reduceCtorEq] at h <;>
    exact ⟨_, h.symm⟩

theorem toNumberValue_eq_ok (h : v.toNumberValue = .ok w) : ∃ n, w = number n := by
  cases v <;> simp only [toNumberValue, Except.ok.injEq, reduceCtorEq] at h
  · exact ⟨_, h.symm⟩
  · split at h
    · exact ⟨_, (Except.ok.inj h).symm⟩
    · cases h

theorem toBoolValue_eq_ok (h : v.toBoolValue = .ok w) : ∃ b, w = bool b := by
  cases v <;> simp only [toBoolValue, Except.ok.injEq, reduceCtorEq] at h
  · exact ⟨_, h.symm⟩
  · split_ifs at h <;> exact ⟨_, (Except.ok.inj h).symm⟩

theorem convert_string : v.convert .string = .ok w ↔
    v.isAbsent ∧ w = v ∨ v.isAbsent = false ∧ v.toStringValue = .ok w :=
  guarded_eq_ok fun hcapsule => by cases v <;> simp_all [isCapsule, toStringValue]

theorem convert_number : v.convert .number = .ok w ↔
    v.isAbsent ∧ w = v ∨ v.isAbsent = false ∧ v.toNumberValue = .ok w :=
  guarded_eq_ok fun hcapsule => by cases v <;> simp_all [isCapsule, toNumberValue]

theorem convert_bool : v.convert .bool = .ok w ↔
    v.isAbsent ∧ w = v ∨ v.isAbsent = false ∧ v.toBoolValue = .ok w :=
  guarded_eq_ok fun hcapsule => by cases v <;> simp_all [isCapsule, toBoolValue]

theorem convert_list : v.convert (.list t) = .ok w ↔ v.isAbsent ∧ w = v ∨
    ∃ items, v.items? = some items ∧ ∃ ws,
      convertItems (fun x => x.convert t) 0 items = .ok ws ∧ w = .list ws := by
  rw [convert, guarded_items]
  simp only [bind_pure_eq_ok]

theorem convert_set : v.convert (.set t) = .ok w ↔ v.isAbsent ∧ w = v ∨
    ∃ items, v.items? = some items ∧ ∃ ws,
      convertItems (fun x => x.convert t) 0 items = .ok ws ∧ w = .set (distinct ws) := by
  rw [convert, guarded_items]
  simp only [bind_pure_eq_ok]

theorem convert_map : v.convert (.map t) = .ok w ↔ v.isAbsent ∧ w = v ∨
    ∃ entries, v.entries? = some entries ∧ ∃ ws,
      convertEntries (fun x => x.convert t) entries = .ok ws ∧ w = .map ws := by
  rw [convert, guarded_entries]
  simp only [bind_pure_eq_ok]

theorem convert_tuple {ts : List ValueType} : v.convert (.tuple ts) = .ok w ↔
    v.isAbsent ∧ w = v ∨ ∃ items, v.items? = some items ∧ items.length = ts.length ∧ ∃ ws,
      convert.convertTuple 0 ts items = .ok ws ∧ w = .tuple ws := by
  rw [convert, guarded_items]
  refine or_congr_right (exists_congr fun items => and_congr_right fun _ => ?_)
  by_cases hlength : items.length = ts.length
  · simp only [hlength, ne_eq, not_true_eq_false, if_false, bind_pure_eq_ok, true_and]
  · simp [hlength, throw, throwThe, MonadExceptOf.throw, bind, Except.bind]

theorem convert_object {ts : List (String × ValueType)} : v.convert (.object ts) = .ok w ↔
    v.isAbsent ∧ w = v ∨ ∃ entries, v.entries? = some entries ∧ ∃ ws,
      convert.convertObject entries ts = .ok ws ∧ w = .object ws := by
  rw [convert, guarded_entries]
  simp only [bind_pure_eq_ok]

end Kinds

/-- `null` conforms to every type. -/
theorem convert_null (t : ValueType) : null.convert t = .ok null := by
  cases t <;> rfl

/-! ## Results conform -/

mutual

/-- The result of a conversion conforms to the type. -/
theorem conforms_of_convert :
    ∀ (t : ValueType) {v w : Value}, v.convert t = .ok w → w.Conforms t
  -- By the type: an absent value conforms as it is, any other is what the type's conversion made.
  | .any, _, _, _ => trivial
  | .string, v, w, h => by
    rcases convert_string.1 h with ⟨habsent, rfl⟩ | ⟨-, hw⟩
    · exact .inl habsent
    · exact .inr (toStringValue_eq_ok hw)
  | .number, v, w, h => by
    rcases convert_number.1 h with ⟨habsent, rfl⟩ | ⟨-, hw⟩
    · exact .inl habsent
    · exact .inr (toNumberValue_eq_ok hw)
  | .bool, v, w, h => by
    rcases convert_bool.1 h with ⟨habsent, rfl⟩ | ⟨-, hw⟩
    · exact .inl habsent
    · exact .inr (toBoolValue_eq_ok hw)
  | .list t, v, w, h => by
    rcases convert_list.1 h with ⟨habsent, rfl⟩ | ⟨items, -, ws, hws, rfl⟩
    · exact .inl habsent
    · exact .inr ⟨ws, rfl, forall_of_convertItems hws fun _ _ _ => conforms_of_convert t⟩
  | .set t, v, w, h => by
    rcases convert_set.1 h with ⟨habsent, rfl⟩ | ⟨items, -, ws, hws, rfl⟩
    · exact .inl habsent
    · have hparts := forall_of_convertItems hws fun _ _ _ => conforms_of_convert t
      exact .inr ⟨_, rfl, nodup_distinct ws, fun x hx => hparts x (mem_of_mem_distinct hx)⟩
  | .map t, v, w, h => by
    rcases convert_map.1 h with ⟨habsent, rfl⟩ | ⟨entries, -, ws, hws, rfl⟩
    · exact .inl habsent
    · exact .inr ⟨ws, rfl, forall_of_convertEntries hws fun _ _ _ => conforms_of_convert t⟩
  | .tuple ts, v, w, h => by
    rcases convert_tuple.1 h with ⟨habsent, rfl⟩ | ⟨items, -, hlength, ws, hws, rfl⟩
    · exact .inl habsent
    · exact .inr ⟨ws, rfl, itemsConform_of_convertTuple ts hlength hws⟩
  | .object ts, v, w, h => by
    rcases convert_object.1 h with ⟨habsent, rfl⟩ | ⟨entries, -, ws, hws, rfl⟩
    · exact .inl habsent
    · exact .inr ⟨ws, rfl, entriesConform_of_convertObject ts hws⟩

theorem itemsConform_of_convertTuple :
    ∀ (ts : List ValueType) {index : Nat} {vs ws : List Value}, vs.length = ts.length →
      convert.convertTuple index ts vs = .ok ws → Conforms.itemsConform ws ts
  | [], _, vs, ws, _, h => by
    cases h
    trivial
  | t :: ts, _, [], _, hlength, _ => by cases hlength
  | t :: ts, _, v :: vs, ws, hlength, h => by
    rcases convertTuple_cons.1 h with ⟨x, xs, hx, hxs, rfl⟩
    exact ⟨conforms_of_convert t hx,
      itemsConform_of_convertTuple ts (by simpa using hlength) hxs⟩

theorem entriesConform_of_convertObject :
    ∀ (ts : List (String × ValueType)) {entries ws : Dict Value},
      convert.convertObject entries ts = .ok ws → Conforms.entriesConform ws ts
  | [], _, _, h => by
    cases h
    trivial
  | (name, t) :: ts, entries, ws, h => by
    rcases convertObject_cons.1 h with ⟨v, x, xs, -, hx, hxs, rfl⟩
    exact ⟨rfl, conforms_of_convert t hx, entriesConform_of_convertObject ts hxs⟩

end

/-! ## Values that conform stay -/

theorem keys_of_entriesConform : ∀ {entries : List (String × Value)}
    {ts : List (String × ValueType)}, Conforms.entriesConform entries ts →
      Dict.keys entries = Dict.keys ts
  | [], [], _ => rfl
  | (k, x) :: xs, (name, t) :: ts, h => by
    rcases h with ⟨rfl, -, h⟩
    exact congrArg (k :: ·) (keys_of_entriesConform h)

mutual

/-- A value that conforms to a type stays as it is. -/
theorem convert_of_conforms :
    ∀ {t : ValueType} {v : Value}, t.Ordered → v.Conforms t → v.convert t = .ok v
  | .any, _, _, _ => rfl
  | .string, v, _, h => by
    rcases h with habsent | ⟨s, rfl⟩
    · exact convert_string.2 (.inl ⟨habsent, rfl⟩)
    · rfl
  | .number, v, _, h => by
    rcases h with habsent | ⟨n, rfl⟩
    · exact convert_number.2 (.inl ⟨habsent, rfl⟩)
    · rfl
  | .bool, v, _, h => by
    rcases h with habsent | ⟨b, rfl⟩
    · exact convert_bool.2 (.inl ⟨habsent, rfl⟩)
    · rfl
  | .list t, v, ht, h => by
    have ht : t.Ordered := ht
    rcases h with habsent | ⟨items, rfl, hparts⟩
    · exact convert_list.2 (.inl ⟨habsent, rfl⟩)
    · have hself := convertItems_self (fun x hx => convert_of_conforms ht (hparts x hx)) 0
      exact convert_list.2 (.inr ⟨items, rfl, items, hself, rfl⟩)
  | .set t, v, ht, h => by
    have ht : t.Ordered := ht
    rcases h with habsent | ⟨items, rfl, hnodup, hparts⟩
    · exact convert_set.2 (.inl ⟨habsent, rfl⟩)
    · have hself := convertItems_self (fun x hx => convert_of_conforms ht (hparts x hx)) 0
      exact convert_set.2 (.inr ⟨items, rfl, items, hself, by rw [distinct_eq_self hnodup]⟩)
  | .map t, v, ht, h => by
    have ht : t.Ordered := ht
    rcases h with habsent | ⟨entries, rfl, hparts⟩
    · exact convert_map.2 (.inl ⟨habsent, rfl⟩)
    · have hself : convertEntries (fun x => x.convert t) entries = .ok entries :=
        convertEntries_self fun e he => convert_of_conforms ht (hparts e he)
      exact convert_map.2 (.inr ⟨entries, rfl, entries, hself, rfl⟩)
  | .tuple ts, v, ht, h => by
    rcases h with habsent | ⟨items, rfl, hparts⟩
    · exact convert_tuple.2 (.inl ⟨habsent, rfl⟩)
    · rcases convertTuple_of_conform 0 ht hparts with ⟨hlength, hself⟩
      exact convert_tuple.2 (.inr ⟨items, rfl, hlength, items, hself, rfl⟩)
  | .object ts, v, ht, h => by
    rcases h with habsent | ⟨entries, rfl, hparts⟩
    · exact convert_object.2 (.inl ⟨habsent, rfl⟩)
    · -- The declared names stand once, so every attribute is found under its own name.
      have hnodup : (Dict.keys entries).Nodup := by
        rw [keys_of_entriesConform hparts]
        exact Dict.nodup_keys ht.1
      have hself := convertObject_of_conform ht.2 hparts
        fun e he => Dict.find?_of_mem hnodup he
      exact convert_object.2 (.inr ⟨entries, rfl, entries, hself, rfl⟩)

theorem convertTuple_of_conform :
    ∀ {ts : List ValueType} {vs : List Value} (index : Nat),
      ValueType.Ordered.elementsOrdered ts → Conforms.itemsConform vs ts →
        vs.length = ts.length ∧ convert.convertTuple index ts vs = .ok vs
  | [], [], _, _, _ => ⟨rfl, rfl⟩
  | t :: ts, v :: vs, index, ht, h => by
    rcases convertTuple_of_conform (index + 1) ht.2 h.2 with ⟨hlength, hself⟩
    exact ⟨congrArg (· + 1) hlength,
      convertTuple_cons.2 ⟨v, vs, convert_of_conforms ht.1 h.1, hself, rfl⟩⟩

theorem convertObject_of_conform :
    ∀ {ts : List (String × ValueType)} {entries all : Dict Value},
      ValueType.Ordered.attributesOrdered ts → Conforms.entriesConform entries ts →
        (∀ e ∈ entries, all.find? e.1 = some e.2) →
          convert.convertObject all ts = .ok entries
  | [], [], _, _, _, _ => rfl
  | (name, t) :: ts, (k, v) :: rest, all, ht, h, hall => by
    rcases h with ⟨rfl, hv, hrest⟩
    rw [List.forall_mem_cons] at hall
    exact convertObject_cons.2 ⟨v, v, rest, hall.1, convert_of_conforms ht.1 hv,
      convertObject_of_conform ht.2 hrest hall.2, rfl⟩

end

/-- A result that is converted again does not change. -/
theorem convert_again {t : ValueType} {v w : Value} (ht : t.Ordered) (h : v.convert t = .ok w) :
    w.convert t = .ok w := convert_of_conforms ht (conforms_of_convert t h)

/-- The results of conversions to a type conform to it, and the values that conform are those that
stay as they are. So a result that is converted again does not change. -/
theorem convert_retraction {t : ValueType} (ht : t.Ordered) :
    (∀ v w : Value, v.convert t = .ok w → w.Conforms t) ∧
      (∀ v : Value, v.convert t = .ok v ↔ v.Conforms t) ∧
      ∀ v w : Value, v.convert t = .ok w → w.convert t = .ok w := by
  refine ⟨fun v w h => conforms_of_convert t h, fun v => ?_, fun v w h => convert_again ht h⟩
  exact ⟨conforms_of_convert t, convert_of_conforms ht⟩

theorem convert_retraction_nested :
    let t : ValueType := .object [("a", .set .number), ("b", .tuple [.string, .map .bool])]
    let v : Value := .map [("a", .list [.string "1", .number (.ofInt64 1), .unknown]),
      ("b", .list [.number (.ofInt64 2), .object [("k", .string "true")]]), ("c", .null)]
    let w : Value := .object [("a", .set [.number (.ofInt64 1), .unknown]),
      ("b", .tuple [.string "2", .map [("k", .bool true)]])]
    t.Ordered ∧ v.convert t = .ok w ∧ w.Conforms t ∧ w.convert t = .ok w ∧ ¬v.Conforms t := by
  intro t v w
  have hordered : t.Ordered := by
    refine ⟨List.pairwise_pair.2 (by decide +kernel), trivial, ⟨trivial, trivial, trivial⟩, trivial⟩
  have hconvert : v.convert t = .ok w := by decide +kernel
  have hne : v.convert t ≠ .ok v := by decide +kernel
  have hretraction := convert_retraction hordered
  exact ⟨hordered, hconvert, hretraction.1 v w hconvert, hretraction.2.2 v w hconvert,
    fun h => hne ((hretraction.2.1 v).2 h)⟩

end Value

end Overlay
