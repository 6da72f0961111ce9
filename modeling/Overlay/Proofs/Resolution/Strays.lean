import Overlay.Proofs.Resolution.Conformity
import Overlay.Proofs.Resolution.Tiers
import Overlay.Proofs.Source.Inline

/-!
# Stray entries of the environment

What becomes of a resolution if the environment has more entries, of variables that are not
declared.

* A variable that is not declared takes part in nothing but the duplicates of its tier. If all
  overrides of it are from one source, there are none, and dropping its overrides changes nothing:
  two sets of overrides that differ in such variables only are `Alike`, and additions keep them
  alike and report the same.
* `resolve_without`: so entries that alone set their variables can be left out.
* `resolve_strays`: stray entries change nothing if each of them sets its variable alone. A second
  spelling of an address that is set already ends the resolution as a duplicate
  (`strays_end_resolution`).
-/

namespace Overlay

/-! ## Sets that differ in variables with one setter -/

namespace OverrideSet

variable {setter? : Target → Option String} {set other : OverrideSet} {o : Override}

/-- Whether an override of a variable that has a setter is from that environment variable. -/
def FromSetter (setter? : Target → Option String) (o : Override) : Prop :=
  ∀ key, setter? o.target = some key → o.source = .environment key

/-- The overrides of variables without a setter. -/
def others (setter? : Target → Option String) (set : OverrideSet) : List Override :=
  set.entries.filter fun o => (setter? o.target).isNone

/-- Whether no addition of an override from its setter is reported. -/
structure Quiet (setter? : Target → Option String) (set : OverrideSet) : Prop where
  distinct : set.Distinct
  fromSetter : ∀ e ∈ set.entries, FromSetter setter? e

/-- Whether two sets hold the same overrides of variables without a setter. -/
structure Alike (setter? : Target → Option String) (set other : OverrideSet) : Prop where
  left : set.Quiet setter?
  right : other.Quiet setter?
  others : set.others setter? = other.others setter?

theorem Alike.symm (h : Alike setter? set other) : Alike setter? other set :=
  ⟨h.right, h.left, h.others.symm⟩

theorem alike_empty : Alike setter? empty empty :=
  have hempty : empty.Quiet setter? := ⟨distinct_empty, by simp [empty]⟩
  ⟨hempty, hempty, rfl⟩

theorem mem_add (hset : set.Distinct) {e : Override} (he : e ∈ (set.add o).1.entries) :
    e ∈ set.entries ∨ e = o := by
  cases h : set.get? o.target with
  | none =>
    rw [add_of_none h] at he
    simpa using he
  | some first =>
    rw [add_of_some hset h] at he
    exact .inl he

theorem Quiet.add (h : set.Quiet setter?) (ho : FromSetter setter? o) :
    (set.add o).1.Quiet setter? := by
  refine ⟨distinct_add h.distinct o, ?_⟩
  intro e he
  rcases mem_add h.distinct he with hold | rfl
  · exact h.fromSetter e hold
  · exact ho

/-- An override from the setter of its variable is not reported, and not among the others. -/
theorem Quiet.add_setter (h : set.Quiet setter?) (ho : FromSetter setter? o) {key : String}
    (hkey : setter? o.target = some key) :
    (set.add o).2 = [] ∧ (set.add o).1.others setter? = set.others setter? := by
  constructor
  · apply add_silent h.distinct
    intro e he
    rcases mem_of_get? he with ⟨hmem, htarget⟩
    rw [ho key hkey]
    exact h.fromSetter e hmem key (htarget ▸ hkey)
  · cases hget : set.get? o.target with
    | none =>
      rw [add_of_none hget]
      simp [OverrideSet.others, hkey]
    | some first => rw [add_of_some h.distinct hget]

/-- Sets that are alike hold the same of a variable without a setter. -/
theorem Alike.get?_eq (h : Alike setter? set other) {target : Target}
    (htarget : setter? target = none) : set.get? target = other.get? target := by
  have hothers : ∀ s : OverrideSet,
      s.get? target = (s.others setter?).find? fun o => o.target = target := by
    intro s
    rw [get?, OverrideSet.others, List.find?_filter]
    congr 1
    funext o
    by_cases ho : o.target = target
    · simp [ho, htarget]
    · simp [ho]
  rw [hothers, hothers, h.others]

/-- An override of a variable without a setter is taken by both, and reported by both. -/
theorem Alike.add (h : Alike setter? set other) (ho : setter? o.target = none) :
    Alike setter? (set.add o).1 (other.add o).1 ∧ (set.add o).2 = (other.add o).2 := by
  have hfrom : FromSetter setter? o := by simp [FromSetter, ho]
  have hget := h.get?_eq ho
  cases hheld : set.get? o.target with
  | none =>
    have hother : other.get? o.target = none := by rw [← hget, hheld]
    refine ⟨⟨h.left.add hfrom, h.right.add hfrom, ?_⟩, ?_⟩
    · rw [add_of_none hheld, add_of_none hother]
      simpa [OverrideSet.others, ho] using h.others
    · rw [add_of_none hheld, add_of_none hother]
  | some first =>
    have hother : other.get? o.target = some first := by rw [← hget, hheld]
    rw [add_of_some h.left.distinct hheld, add_of_some h.right.distinct hother]
    exact ⟨h, rfl⟩

/-- One from its setter may be added to one of them only. -/
theorem Alike.add_left (h : Alike setter? set other) (ho : FromSetter setter? o) {key : String}
    (hkey : setter? o.target = some key) :
    Alike setter? (set.add o).1 other ∧ (set.add o).2 = [] := by
  rcases h.left.add_setter ho hkey with ⟨hsilent, hothers⟩
  exact ⟨⟨h.left.add ho, h.right, hothers.trans h.others⟩, hsilent⟩

/-- What is added to both keeps them alike and is reported by both or by none. -/
theorem Alike.add_both (h : Alike setter? set other) (ho : FromSetter setter? o) :
    Alike setter? (set.add o).1 (other.add o).1 ∧ (set.add o).2 = (other.add o).2 := by
  cases hkey : setter? o.target with
  | none => exact h.add hkey
  | some key =>
    rcases h.add_left ho hkey with ⟨hleft, hsilent⟩
    rcases hleft.symm.add_left ho hkey with ⟨hboth, hother⟩
    exact ⟨hboth.symm, hsilent.trans hother.symm⟩

end OverrideSet

namespace Resolution

variable {addressing : Addressing} {declared : VariableMap} {setter? : Target → Option String}
  {set other : OverrideSet} {readers : Readers} {c : Configuration}

/-! ## Decodings -/

/-- Keys that set variables with a setter may be left out of the environment. -/
theorem addInline_without {strays : List String} (entries : Dict String)
    (hstray : ∀ key ∈ Dict.keys entries, key ∈ strays → ∃ t,
      addressing.targetOf? key = some t ∧ declared.lookup? t = none ∧ setter? t = some key)
    (hother : ∀ key ∈ Dict.keys entries, key ∉ strays → ∀ t, addressing.targetOf? key = some t →
      setter? t = none)
    (h : OverrideSet.Alike setter? set other) :
    OverrideSet.Alike setter? (addInline addressing declared .environment set entries).1
        (addInline addressing declared .environment other
          (entries.filter fun entry => entry.1 ∉ strays)).1 ∧
      (addInline addressing declared .environment set entries).2 =
        (addInline addressing declared .environment other
          (entries.filter fun entry => entry.1 ∉ strays)).2 := by
  induction entries generalizing set other with
  | nil => exact ⟨h, rfl⟩
  | cons entry rest ih =>
    rcases entry with ⟨key, raw⟩
    have hrest := fun k hk => hstray k (List.mem_cons_of_mem _ hk)
    have hothers := fun k hk => hother k (List.mem_cons_of_mem _ hk)
    rw [addInline_cons]
    by_cases hkey : key ∈ strays
    · -- A stray key is an override from the setter of its variable.
      rcases hstray key List.mem_cons_self hkey with ⟨t, htarget, hmissing, hsetter⟩
      have hskip : List.filter (fun entry : String × String => decide (entry.1 ∉ strays))
          ((key, raw) :: rest) = rest.filter fun entry => entry.1 ∉ strays := by
        simp [hkey]
      rw [Decoding.inline_undeclared htarget hmissing, hskip]
      have hfrom : OverrideSet.FromSetter setter? ⟨t, .string raw, none,
          .whole (Decoding.inlineName (.environment key)) raw, .environment key⟩ := by
        intro k hk
        rw [hsetter] at hk
        cases hk
        rfl
      rcases h.add_left hfrom hsetter with ⟨hleft, hsilent⟩
      rcases ih hrest hothers hleft with ⟨halike, hreports⟩
      exact ⟨halike, by simp only [hsilent, hreports, List.nil_append]⟩
    · have htake : List.filter (fun entry : String × String => decide (entry.1 ∉ strays))
          ((key, raw) :: rest) = (key, raw) :: rest.filter fun entry => entry.1 ∉ strays := by
        simp [hkey]
      rw [htake, addInline_cons]
      cases hinline : Decoding.inline addressing declared (.environment key) key raw with
      | error ds =>
        rcases ih hrest hothers h with ⟨halike, hreports⟩
        exact ⟨halike, by simp only [hreports]⟩
      | ok o =>
        have htarget := (Decoding.inline_eq_ok hinline).1
        have hnone := hother key List.mem_cons_self hkey _ htarget
        rcases h.add hnone with ⟨hnext, hsame⟩
        rcases ih hrest hothers hnext with ⟨halike, hreports⟩
        exact ⟨halike, by simp only [hsame, hreports]⟩

/-- Whether two collections of overrides differ in the environment only, and are alike there. -/
structure Overrides.Alike (setter? : Target → Option String) (all others : Overrides) : Prop where
  environment : OverrideSet.Alike setter? all.environment others.environment
  files : all.files = others.files
  cli : all.cli = others.cli

/-- Overrides made already keep them alike. -/
theorem addSupplied_alike {all others : Overrides} (h : all.Alike setter? others)
    (supplied : OverrideSet) {os : List Override}
    (hos : ∀ o ∈ os, o.source.tier = .environment → OverrideSet.FromSetter setter? o) :
    (addSupplied all supplied os).1.Alike setter? (addSupplied others supplied os).1 ∧
      (addSupplied all supplied os).2 = (addSupplied others supplied os).2 := by
  induction os generalizing all others supplied with
  | nil => exact ⟨h, rfl⟩
  | cons o rest ih =>
    rw [List.forall_mem_cons] at hos
    rcases all with ⟨environment, files, cli⟩
    rcases others with ⟨environment', files', cli'⟩
    rcases h with ⟨henvironment, hfiles, hcli⟩
    dsimp only at henvironment hfiles hcli
    subst hfiles hcli
    cases htier : o.source.tier with
    -- Only the environment's set differs between the two sides.
    | environment =>
      rcases henvironment.add_both (hos.1 htier) with ⟨hnext, hsame⟩
      have hput : Overrides.Alike setter? ⟨(environment.add o).1, files, cli⟩
          ⟨(environment'.add o).1, files, cli⟩ := ⟨hnext, rfl, rfl⟩
      rcases ih hput supplied hos.2 with ⟨halike, hreports⟩
      simp only [addSupplied, htier]
      exact ⟨halike, by simp only [hsame, hreports]⟩
    | file =>
      have hsame : Overrides.Alike setter? ⟨environment, files, cli⟩ ⟨environment', files, cli⟩ :=
        ⟨henvironment, rfl, rfl⟩
      simp only [addSupplied, htier]
      cases supplied.insert o with
      | error d =>
        rcases ih hsame supplied hos.2 with ⟨halike, hreports⟩
        exact ⟨halike, by simp only [hreports]⟩
      | ok next =>
        rcases ih hsame next hos.2 with ⟨halike, hreports⟩
        exact ⟨halike, by simp only [hreports]⟩
    | cli =>
      have hput : Overrides.Alike setter? ⟨environment, files, (cli.add o).1⟩
          ⟨environment', files, (cli.add o).1⟩ := ⟨henvironment, rfl, rfl⟩
      rcases ih hput supplied hos.2 with ⟨halike, hreports⟩
      simp only [addSupplied, htier]
      exact ⟨halike, by simp only [hreports]⟩

/-! ## Merges -/

theorem applyAll_cons (ignoreMissing : Bool) (tier : Tier) (vars : VariableMap) (o : Override)
    (rest : List Override) :
    applyAll ignoreMissing tier vars (o :: rest) =
      ((applyAll ignoreMissing tier (apply ignoreMissing tier vars o).1 rest).1,
        (apply ignoreMissing tier vars o).2 ++
          (applyAll ignoreMissing tier (apply ignoreMissing tier vars o).1 rest).2) := rfl

/-- Overrides of variables that are not declared may be left out of the environment. -/
theorem applyAll_others {ignoreMissing : Bool} {vars : VariableMap}
    (hsetter : ∀ t key, setter? t = some key → vars.lookup? t = none) (set : OverrideSet) :
    applyAll ignoreMissing .environment vars set.entries =
      applyAll ignoreMissing .environment vars (set.others setter?) := by
  unfold OverrideSet.others
  induction set.entries generalizing vars with
  | nil => rfl
  | cons o rest ih =>
    cases hkey : setter? o.target with
    -- The override of a stray targets no declared variable: nothing changes, nothing is reported.
    | some key =>
      have happly : apply ignoreMissing .environment vars o = (vars, []) := by
        simp [apply, hsetter _ key hkey, ignores]
      have hskip : (o :: rest).filter (fun o => (setter? o.target).isNone) =
          rest.filter fun o => (setter? o.target).isNone := by
        simp [hkey]
      rw [hskip, applyAll_cons, happly, ih hsetter]
      rfl
    | none =>
      have htake : (o :: rest).filter (fun o => (setter? o.target).isNone) =
          o :: rest.filter fun o => (setter? o.target).isNone := by
        simp [hkey]
      have hnext : ∀ t key, setter? t = some key →
          (apply ignoreMissing .environment vars o).1.lookup? t = none :=
        fun t key ht => lookup?_apply_of_none o (hsetter t key ht)
      rw [htake, applyAll_cons, applyAll_cons, ih hnext]

/-- Collections that are alike are merged into the same variables. -/
theorem merge_alike {ignoreMissing : Bool} {vars : VariableMap} {all others : Overrides}
    (hsetter : ∀ t key, setter? t = some key → vars.lookup? t = none)
    (h : all.Alike setter? others) :
    merge ignoreMissing vars all = merge ignoreMissing vars others := by
  have henvironment : applyAll ignoreMissing .environment vars all.environment.entries =
      applyAll ignoreMissing .environment vars others.environment.entries := by
    rw [applyAll_others hsetter all.environment, h.environment.others, ← applyAll_others hsetter]
  simp only [merge, henvironment, h.files, h.cli]

end Resolution

/-! ## Whole resolutions -/

namespace Configuration

/-- The configuration without the environment's entries of some keys. -/
def without (c : Configuration) (keys : List String) : Configuration :=
  { c with environment := c.environment.filter fun entry => entry.1 ∉ keys }

/-- The configuration with more entries in the environment, each in place of the one with its key. -/
def withEnvironment (c : Configuration) (entries : Dict String) : Configuration :=
  { c with environment := entries.foldl (fun d (key, raw) => d.insert key raw) c.environment }

/-- Whether the environment tier has overrides of a variable from one environment variable only. -/
structure SetsAlone (c : Configuration) (key : String) (target : Target) : Prop where
  inline : ∀ other ∈ Dict.keys c.environment,
    c.addressing.targetOf? other = some target → other = key
  supplied : ∀ o ∈ c.supplied, o.source.tier = .environment → o.target = target →
    o.source = .environment key

/-- Whether a key addresses a variable that is not declared. -/
def IsStray (c : Configuration) (key : String) (target : Target) : Prop :=
  c.addressing.targetOf? key = some target ∧
    (Resolution.collect c.declarations).1.lookup? target = none

end Configuration

namespace Resolution

variable {c : Configuration} {readers : Readers} {strays : List String}

/-- The one of the keys that addresses a variable. -/
def setterOf? (c : Configuration) (strays : List String) (target : Target) : Option String :=
  strays.find? fun key => c.addressing.targetOf? key = some target

theorem setterOf?_eq_some {target : Target} {key : String}
    (h : setterOf? c strays target = some key) :
    key ∈ strays ∧ c.addressing.targetOf? key = some target :=
  ⟨List.mem_of_find?_eq_some h, by simpa using List.find?_some h⟩

section Alone

variable (hstrays : ∀ key ∈ strays, ∃ target, c.IsStray key target ∧ c.SetsAlone key target)

include hstrays

/-- The setter of a variable is a key that sets it alone, and the variable is not declared. -/
theorem alone_of_setterOf? {target : Target} {key : String}
    (h : setterOf? c strays target = some key) :
    key ∈ strays ∧ c.IsStray key target ∧ c.SetsAlone key target := by
  rcases setterOf?_eq_some h with ⟨hmem, haddress⟩
  rcases hstrays key hmem with ⟨t, ⟨ht, hmissing⟩, halone⟩
  have hsame : t = target := by simpa [ht] using haddress
  subst hsame
  exact ⟨hmem, ⟨ht, hmissing⟩, halone⟩

/-- Of several stray keys of one variable the environment has the first one only. -/
theorem setterOf?_of_mem {key : String} (hkey : key ∈ Dict.keys c.environment)
    (hmem : key ∈ strays) :
    ∃ target, c.IsStray key target ∧ setterOf? c strays target = some key := by
  rcases hstrays key hmem with ⟨target, hstray, -⟩
  refine ⟨target, hstray, ?_⟩
  cases hsetter : setterOf? c strays target with
  | none => exact absurd hstray.1 (by simpa using List.find?_eq_none.1 hsetter key hmem)
  | some first =>
    rcases alone_of_setterOf? hstrays hsetter with ⟨-, -, halone⟩
    rw [halone.inline key hkey hstray.1]

/-- A variable that another key of the environment sets has no setter. -/
theorem setterOf?_eq_none {key : String} (hkey : key ∈ Dict.keys c.environment)
    (hmem : key ∉ strays) {target : Target} (htarget : c.addressing.targetOf? key = some target) :
    setterOf? c strays target = none := by
  cases hsetter : setterOf? c strays target with
  | none => rfl
  | some first =>
    rcases alone_of_setterOf? hstrays hsetter with ⟨hfirst, -, halone⟩
    rw [halone.inline key hkey htarget] at hmem
    exact absurd hfirst hmem

theorem fromSetter_supplied {o : Override} (ho : o ∈ c.supplied)
    (htier : o.source.tier = .environment) :
    OverrideSet.FromSetter (setterOf? c strays) o := by
  intro key hkey
  rcases alone_of_setterOf? hstrays hkey with ⟨-, -, halone⟩
  exact halone.supplied o ho htier rfl

/-- Decodings with and without entries that alone set variables that are not declared. -/
theorem decode_without :
    (∃ ds, decode c readers (collect c.declarations).1 = .error ds ∧
        decode (c.without strays) readers (collect c.declarations).1 = .error ds) ∨
      ∃ all others ds, decode c readers (collect c.declarations).1 = .ok (all, ds) ∧
        decode (c.without strays) readers (collect c.declarations).1 = .ok (others, ds) ∧
        all.Alike (setterOf? c strays) others := by
  have hstray : ∀ key ∈ Dict.keys c.environment, key ∈ strays → ∃ target,
      c.addressing.targetOf? key = some target ∧
        (collect c.declarations).1.lookup? target = none ∧
        setterOf? c strays target = some key := by
    intro key hkey hmem
    rcases setterOf?_of_mem hstrays hkey hmem with ⟨target, ⟨htarget, hmissing⟩, hsetter⟩
    exact ⟨target, htarget, hmissing, hsetter⟩
  have hother : ∀ key ∈ Dict.keys c.environment, key ∉ strays → ∀ target,
      c.addressing.targetOf? key = some target → setterOf? c strays target = none :=
    fun key hkey hmem target htarget => setterOf?_eq_none hstrays hkey hmem htarget
  rcases addInline_without c.environment hstray hother OverrideSet.alike_empty with
    ⟨halike, hreports⟩
  rw [decode_eq, decode_eq]
  have hfiles : decodeFiles (c.without strays).addressing readers (c.without strays).files =
    decodeFiles c.addressing readers c.files := rfl
  rw [hfiles]
  cases decodeFiles c.addressing readers c.files with
  | error ds => exact .inl ⟨_, rfl, by simp only [hreports]; rfl⟩
  | ok result =>
    have hinline : (inlineRun c (collect c.declarations).1 result.1).Alike (setterOf? c strays)
        (inlineRun (c.without strays) (collect c.declarations).1 result.1) := ⟨halike, rfl, rfl⟩
    -- Files and command line see the same input; the supplied overrides come after all three.
    rcases addSupplied_alike hinline .empty (fun _ => fromSetter_supplied hstrays) with
      ⟨hsets, hmore⟩
    have hdropped : (addSupplied (inlineRun (c.without strays) (collect c.declarations).1 result.1)
        .empty (c.without strays).supplied).2 =
          (addSupplied (inlineRun c (collect c.declarations).1 result.1) .empty c.supplied).2 :=
      hmore.symm
    have hfront : (addInline (c.without strays).addressing (collect c.declarations).1 .environment
        .empty (c.without strays).environment).2 =
          (addInline c.addressing (collect c.declarations).1 .environment .empty c.environment).2 :=
      hreports.symm
    refine .inr ⟨_, _, _, rfl, congrArg Except.ok (Prod.ext rfl ?_), hsets.environment, ?_,
      hsets.cli⟩
    · simp only [hdropped, hfront]
      rfl
    · have hsame : (addSupplied (inlineRun (c.without strays) (collect c.declarations).1 result.1)
          .empty (c.without strays).supplied).1.files =
            (addSupplied (inlineRun c (collect c.declarations).1 result.1) .empty
              c.supplied).1.files := hsets.files.symm
      simp only [hdropped, hsame]

/-- Entries that alone set variables that are not declared can be left out. -/
theorem resolve_without : c.resolve readers = (c.without strays).resolve readers := by
  have hmissing : ∀ target key, setterOf? c strays target = some key →
      (collect c.declarations).1.lookup? target = none :=
    fun target key hkey => (alone_of_setterOf? hstrays hkey).2.1.2
  have hdeclarations : (c.without strays).declarations = c.declarations := rfl
  have hignore : (c.without strays).ignoreMissing = c.ignoreMissing := rfl
  rw [Configuration.resolve_eq, Configuration.resolve_eq, hdeclarations, hignore]
  rcases @decode_without c readers strays hstrays with
    ⟨ds, hwith, hwithout⟩ | ⟨all, others, ds, hwith, hwithout, halike⟩
  · simp only [hwith, hwithout]
  · have hmerge := @merge_alike _ c.ignoreMissing _ _ _ hmissing halike
    simp only [hwith, hwithout, hmerge]
    rfl

end Alone

/-- The environment's entry of a variable that is not declared is an override of it. -/
theorem exists_givenFor {key : String} {target : Target} (hstray : c.IsStray key target)
    (hkey : key ∈ Dict.keys c.environment) :
    ∃ o ∈ givenFor c readers (collect c.declarations).1 target .environment,
      o.target = target ∧ o.source = .environment key := by
  rcases List.mem_map.1 hkey with ⟨⟨k, raw⟩, hmem, rfl⟩
  let o : Override := ⟨target, .string raw, none,
    .whole (Decoding.inlineName (.environment k)) raw, .environment k⟩
  have hinline : Decoding.inline c.addressing (collect c.declarations).1 (.environment k) k raw =
      .ok o := Decoding.inline_undeclared hstray.1 hstray.2
  have hmem : o ∈ inlineOverrides c.addressing (collect c.declarations).1 .environment
      c.environment := by
    refine List.mem_filterMap.2 ⟨(k, raw), hmem, ?_⟩
    rw [hinline]
    rfl
  exact ⟨o, List.mem_filter.2 ⟨List.mem_append_left _ hmem, by simp [o]⟩, rfl, rfl⟩

/-- A stray key that does not set its variable alone has a rival in the environment tier. -/
theorem exists_rival {key : String} {target : Target} (hstray : c.IsStray key target)
    (halone : ¬c.SetsAlone key target) :
    ∃ o ∈ givenFor c readers (collect c.declarations).1 target .environment,
      o.target = target ∧ o.source ≠ .environment key := by
  by_contra hnone
  push Not at hnone
  apply halone
  constructor
  · intro other hother haddress
    rcases @exists_givenFor c readers other target ⟨haddress, hstray.2⟩ hother with
      ⟨o, ho, htarget, hsource⟩
    have hsame := hnone o ho htarget
    rw [hsource] at hsame
    exact OverrideSource.environment.inj hsame
  · intro o ho htier htarget
    refine hnone o (List.mem_filter.2 ⟨List.mem_append_right _ ?_, by simpa using htarget⟩) htarget
    exact List.mem_filter.2 ⟨ho, by simpa using htier⟩

/-- A variable that is not declared and that two sources set in the environment tier ends the
resolution. -/
theorem resolve_not_alone {key : String} {target : Target}
    (hcollect : (collect c.declarations).2.hasErrors = false)
    (hfiles : ∀ path ∈ c.files, ∃ file, Decoding.file c.addressing readers path = .ok file)
    (hstray : c.IsStray key target) (hkey : key ∈ Dict.keys c.environment)
    (halone : ¬c.SetsAlone key target) :
    ∃ ds, c.resolve readers = .error ds ∧
      ∃ first second : Override, first.duplicate second ∈ ds ∧ second.target = target := by
  rcases @exists_givenFor c readers key target hstray hkey with ⟨own, hown, howntarget, hownsource⟩
  rcases @exists_rival c readers key target hstray halone with
    ⟨rival, hrival, hrivaltarget, hrivalsource⟩
  cases hfirst : (givenFor c readers (collect c.declarations).1 target .environment).head? with
  | none =>
    rw [List.head?_eq_none_iff] at hfirst
    rw [hfirst] at hown
    cases hown
  | some first =>
    -- Whatever comes first, one of the two is from another source.
    have hlater : ∃ o ∈ givenFor c readers (collect c.declarations).1 target .environment,
        o.target = target ∧ first.source ≠ o.source := by
      by_cases hsame : first.source = own.source
      · refine ⟨rival, hrival, hrivaltarget, ?_⟩
        rw [hsame, hownsource]
        exact hrivalsource.symm
      · exact ⟨own, hown, howntarget, hsame⟩
    rcases hlater with ⟨second, hsecond, htarget, hsource⟩
    subst htarget
    rcases @decode_eq_ok readers c (collect c.declarations).1 hfiles with ⟨all, ds, hdecode⟩
    have hduplicate := decode_duplicate hdecode (by decide) hfirst hsecond hsource
    have herrors : ds.hasErrors = true :=
      List.any_eq_true.2 ⟨_, hduplicate, duplicate_isError first second⟩
    exact ⟨_, resolve_eq_error hcollect hdecode herrors, first, second,
      List.mem_append_right _ hduplicate, rfl⟩

/-! ## More entries -/

/-- With more entries, the environment has their keys and those that it had. -/
theorem keys_withEnvironment (c : Configuration) (extra : Dict String) (key : String) :
    key ∈ Dict.keys (c.withEnvironment extra).environment ↔
      key ∈ Dict.keys extra ∨ key ∈ Dict.keys c.environment := by
  have hrun : ∀ (extra d : Dict String),
      key ∈ Dict.keys (extra.foldl (fun d (k, raw) => d.insert k raw) d) ↔
        key ∈ Dict.keys extra ∨ key ∈ Dict.keys d := by
    intro extra
    induction extra with
    | nil => simp [Dict.keys]
    | cons entry rest ih =>
      intro d
      rw [List.foldl_cons, ih, Dict.mem_keys_insert]
      simp [Dict.keys, or_assoc, or_left_comm]
  exact hrun extra c.environment

/-- Without the keys of the entries, it does not matter whether there are more entries. -/
theorem without_withEnvironment (c : Configuration) (extra : Dict String) :
    (c.withEnvironment extra).without (Dict.keys extra) = c.without (Dict.keys extra) := by
  have hrun : ∀ (keys : List String) (extra d : Dict String),
      (∀ key ∈ Dict.keys extra, key ∈ keys) →
      (extra.foldl (fun d (k, raw) => d.insert k raw) d).filter (fun entry => entry.1 ∉ keys) =
        d.filter fun entry => entry.1 ∉ keys := by
    intro keys extra
    induction extra with
    | nil => exact fun d _ => rfl
    | cons entry rest ih =>
      intro d h
      rw [List.foldl_cons, ih _ fun key hkey => h key (List.mem_cons_of_mem _ hkey)]
      have hentry : entry.1 ∈ keys := h entry.1 List.mem_cons_self
      let kept (key : String) : Bool := decide (key ∉ keys)
      have hkept : kept entry.1 = false := by simpa [kept] using hentry
      exact @Dict.filter_insert _ d entry.1 entry.2 kept hkept
  simp only [Configuration.without, Configuration.withEnvironment, hrun _ extra _ fun _ h => h]

/-- The environment gets more entries, all of variables that are not declared. If each of them sets
its variable alone, the resolution is the one without them. If one of them does not, the resolution
ends with a duplicate of its variable. -/
theorem resolve_strays {extra : Dict String}
    (hstrays : ∀ key ∈ Dict.keys extra, ∃ target, c.IsStray key target) :
    ((∀ key ∈ Dict.keys extra, ∀ target, c.IsStray key target →
        (c.withEnvironment extra).SetsAlone key target) →
      (c.withEnvironment extra).resolve readers = c.resolve readers) ∧
    ((collect c.declarations).2.hasErrors = false →
      (∀ path ∈ c.files, ∃ file, Decoding.file c.addressing readers path = .ok file) →
        ∀ key ∈ Dict.keys extra, ∀ target, c.IsStray key target →
          ¬(c.withEnvironment extra).SetsAlone key target →
            ∃ ds, (c.withEnvironment extra).resolve readers = .error ds ∧
              ∃ first second : Override, first.duplicate second ∈ ds ∧
                second.target = target) := by
  constructor
  · intro halone
    have hwith : ∀ key ∈ Dict.keys extra, ∃ target,
        (c.withEnvironment extra).IsStray key target ∧
          (c.withEnvironment extra).SetsAlone key target := by
      intro key hkey
      rcases hstrays key hkey with ⟨target, hstray⟩
      exact ⟨target, hstray, halone key hkey target hstray⟩
    -- The configuration itself may have entries under some of the keys.
    have hwithout : ∀ key ∈ Dict.keys extra, ∃ target,
        c.IsStray key target ∧ c.SetsAlone key target := by
      intro key hkey
      rcases hstrays key hkey with ⟨target, hstray⟩
      have hset := halone key hkey target hstray
      refine ⟨target, hstray, ?_, hset.supplied⟩
      intro other hother
      exact hset.inline other ((keys_withEnvironment c extra other).2 (.inr hother))
    rw [resolve_without hwith, without_withEnvironment, ← resolve_without hwithout]
  · intro hcollect hfiles key hkey target hstray halone
    have hmem := (keys_withEnvironment c extra key).2 (.inl hkey)
    exact @resolve_not_alone (c.withEnvironment extra) readers key target hcollect hfiles hstray
      hmem halone

/-- A declared variable, and an environment without entries. -/
def plain : Configuration where
  root := ⟨"web"⟩
  declarations := [("web", ⟨"variables.hcl", "variable \"x\" \x7b\n\x7d\n"⟩)]

/-- The same with an override file, which is named from the root. -/
def plainFiled : Configuration := { plain with files := ["/etc/web.vars"] }

/-- The file that `plainFiled` names. -/
def plainFiles : FileTree := FileTree.empty.add "/etc/web.vars" "x = 1\n".toUTF8

theorem resolve_strays_plain :
    (plainFiled.withEnvironment [("y", "1")]).resolve plainFiles =
        plainFiled.resolve plainFiles ∧
      ∃ ds, (plainFiled.withEnvironment [("web.y", "2"), ("y", "1")]).resolve plainFiles =
          .error ds ∧
        ∃ first second : Override, first.duplicate second ∈ ds ∧
          second.target = ⟨⟨"web"⟩, "y"⟩ := by
  have hstray : plainFiled.IsStray "y" ⟨⟨"web"⟩, "y"⟩ := ⟨by decide +kernel, by decide +kernel⟩
  have hspelled : plainFiled.IsStray "web.y" ⟨⟨"web"⟩, "y"⟩ :=
    ⟨by decide +kernel, by decide +kernel⟩
  constructor
  · refine (@resolve_strays plainFiled plainFiles [("y", "1")] ?_).1 ?_
    · intro key hkey
      obtain rfl : key = "y" := by simpa [Dict.keys] using hkey
      exact ⟨_, hstray⟩
    · intro key hkey target _
      obtain rfl : key = "y" := by simpa [Dict.keys] using hkey
      refine ⟨?_, by simp [plain, plainFiled, Configuration.withEnvironment]⟩
      intro other hother _
      simpa [plain, plainFiled, Configuration.withEnvironment, Dict.insert, Dict.keys]
        using hother
  · refine (@resolve_strays plainFiled plainFiles [("web.y", "2"), ("y", "1")] ?_).2
      (by decide +kernel) ?_ "y" (by simp [Dict.keys]) _ hstray ?_
    · intro key hkey
      have hkeys : key = "web.y" ∨ key = "y" := by simpa [Dict.keys] using hkey
      rcases hkeys with rfl | rfl
      · exact ⟨_, hspelled⟩
      · exact ⟨_, hstray⟩
    · intro path hpath
      obtain rfl : path = "/etc/web.vars" := List.mem_singleton.1 hpath
      exact exists_eq_ok (by decide +kernel)
    · -- The other spelling addresses the same variable.
      intro halone
      have hsame := halone.inline "web.y" (by decide +kernel) hspelled.1
      exact absurd hsame (by decide)

/-- Stray entries do not always leave a resolution as it is: two spellings of one address end it. -/
theorem strays_end_resolution :
    (∀ key ∈ ["web.y", "y"], plain.IsStray key ⟨⟨"web"⟩, "y"⟩) ∧
      (plain.resolve FileTree.empty).toOption.isSome ∧
      ((plain.withEnvironment [("web.y", "2"), ("y", "1")]).resolve
        FileTree.empty).toOption.isSome = false := by
  refine ⟨?_, by decide +kernel, by decide +kernel⟩
  intro key hkey
  have hkeys : key = "web.y" ∨ key = "y" := by simpa using hkey
  rcases hkeys with rfl | rfl <;> exact ⟨by decide +kernel, by decide +kernel⟩

end Resolution

end Overlay
