import Overlay.Proofs.Source.Members
import Overlay.Proofs.Source.Slices
import Overlay.Proofs.Text.Dots
import Overlay.Proofs.ValueType.Ordered

/-!
# Addresses of overrides

* `resolveKey_valid_iff`: the parts of a key, if there are no dots in them, are identifiers exactly
  when the variable that they address has a valid address.
* The parts of a quoted key, of a name in a document and of the key of a single value are checked
  (`targetOf?_valid`). Those of a key without quotes are words of the language
  (`IsKey.isWord_of_keySegments`), which is less: words have letters of all scripts.
* `recorded_addresses`: so what is recorded has a valid address, but for keys without quotes that
  are no identifiers.
-/

namespace Overlay

/-! ## Valid addresses -/

/-- Whether the parts of a package ID are identifiers. -/
def PackageId.Valid (id : PackageId) : Prop := ∀ s ∈ Text.splitDots id.text, isIdentifier s = true

/-- Whether the name of a variable and the parts of its package's ID are identifiers. -/
structure Target.Valid (target : Target) : Prop where
  package : target.package.Valid
  variableName : isIdentifier target.variableName = true

theorem PackageId.valid_ofSegments {segments : List String} (hne : segments ≠ [])
    (hdots : ∀ s ∈ segments, '.' ∉ s.toList) :
    (PackageId.ofSegments segments).Valid ↔ ∀ s ∈ segments, isIdentifier s = true := by
  unfold Valid ofSegments
  rw [Text.splitDots_joinDots hne hdots]

/-- What a key addresses: its last part is the name of the variable, and those in front of it are
the parts of the package's ID, if there are any. -/
theorem Scheme.resolveKey_cases {scheme : Scheme} {root : PackageId} {segments : List String}
    {target : Target} (h : scheme.resolveKey root segments = .ok target) :
    (∃ name, segments = [name] ∧ target = ⟨root, name⟩) ∨
      ∃ front name, front ≠ [] ∧ segments = front ++ [name] ∧
        target = ⟨.ofSegments front, name⟩ := by
  rcases segments with - | ⟨first, - | ⟨second, rest⟩⟩
  · cases scheme <;> cases h
  · cases scheme <;> cases h <;> exact .inl ⟨first, rfl, rfl⟩
  · cases scheme with
    | flat =>
      rcases rest with - | ⟨third, rest⟩
      · cases h
        exact .inr ⟨[first], second, List.cons_ne_nil _ _, rfl, rfl⟩
      · cases h
    -- The last segment names the variable, all in front of it the package.
    | hierarchical =>
      obtain ⟨front, name, hsplit⟩ : ∃ front name, first :: second :: rest = front ++ [name] :=
        ⟨_, _, (List.dropLast_append_getLast (List.cons_ne_nil first (second :: rest))).symm⟩
      have hne : front ≠ [] := by
        rintro rfl
        cases hsplit
      have hlast : (first :: second :: rest).getLast? = some name := by
        rw [hsplit, List.getLast?_concat]
      have hfront : (first :: second :: rest).dropLast = front := by
        rw [hsplit, List.dropLast_concat]
      simp only [resolveKey, hlast, hfront] at h
      cases h
      exact .inr ⟨front, name, hne, hsplit, rfl⟩

/-- Parts of a key that have no dots in them are identifiers exactly when their address is valid. -/
theorem Scheme.resolveKey_valid_iff {scheme : Scheme} {root : PackageId} {segments : List String}
    {target : Target} (hroot : root.Valid) (hdots : ∀ s ∈ segments, '.' ∉ s.toList)
    (h : scheme.resolveKey root segments = .ok target) :
    target.Valid ↔ ∀ s ∈ segments, isIdentifier s = true := by
  rcases resolveKey_cases h with ⟨name, rfl, rfl⟩ | ⟨front, name, hne, rfl, rfl⟩
  · rw [List.forall_mem_singleton]
    exact ⟨fun hvalid => hvalid.variableName, fun hname => ⟨hroot, hname⟩⟩
  · rw [List.forall_mem_append, List.forall_mem_singleton] at hdots ⊢
    rw [← PackageId.valid_ofSegments hne hdots.1]
    exact ⟨fun hvalid => ⟨hvalid.package, hvalid.variableName⟩, fun hboth => ⟨hboth.1, hboth.2⟩⟩

/-! ## Words -/

theorem dot_not_mem_of_isWord {name : String} (h : Value.IsWord name) : '.' ∉ name.toList := by
  rcases h with ⟨c, cs, htext, hc, hcs⟩
  rw [htext]
  intro hmem
  rcases List.mem_cons.1 hmem with rfl | hmem
  · exact absurd hc (by decide +kernel)
  · exact absurd (hcs _ hmem) (by decide +kernel)

namespace Hcl

/-- Whether all names among tokens are words. -/
def HasWords (ts : List Token) : Prop :=
  ∀ t ∈ ts, ∀ name, t.kind = .ident name → Value.IsWord name

variable {ts us : List Token} {names : List String}

theorem HasWords.left (h : HasWords (ts ++ us)) : HasWords ts :=
  fun t ht => h t (List.mem_append_left _ ht)

theorem HasWords.right (h : HasWords (ts ++ us)) : HasWords us :=
  fun t ht => h t (List.mem_append_right _ ht)

theorem Lexeme.isWord_next {c : Char} {cs : List Char} (h : (next c cs).shape = .word) :
    Value.IsWord (String.ofList (next c cs).text) := by
  rcases taken_of_shape h with ⟨more, htail, htaken⟩
  rw [next_text, htail]
  cases htaken with
  | word hc =>
    exact ⟨c, _, String.toList_ofList, hc, fun d hd => List.mem_takeWhile_imp hd⟩

/-- The names among the tokens of a text are words. -/
theorem Tokens.hasWords_ofText (text : String) : HasWords (ofText text).tokens := by
  intro t ht name hname
  rcases exists_next ht with ⟨p, c, cs, hmem⟩
  have htells := tells_of_mem hmem
  rw [hname] at htells
  rcases htells with ⟨hshape, rfl⟩
  exact Lexeme.isWord_next hshape

theorem IsStep.isWord {name : String} {span : Span} (h : IsStep ts (.attr name span))
    (hts : HasWords ts) : Value.IsWord name := by
  cases h with
  | attr hd ht => exact hts _ (List.mem_cons_of_mem _ List.mem_cons_self) name ht

/-- The names in the steps of a key are those of tokens. -/
theorem IsSteps.isWord_of_stepNames {ts : List Token} {steps : List Step} {names : List String}
    (h : IsSteps ts steps) (hts : HasWords ts) (hnames : Decoding.stepNames steps = .ok names) :
    ∀ name ∈ names, Value.IsWord name := by
  match h with
  | .none =>
    cases hnames
    exact fun _ h => absurd h List.not_mem_nil
  | @IsSteps.cons ts us step steps hstep hsteps =>
    cases step with
    | index key span => cases hnames
    | attr name span =>
      rcases ValueType.map_eq_ok.1 hnames with ⟨more, hmore, rfl⟩
      exact List.forall_mem_cons.2
        ⟨hstep.isWord hts.left, hsteps.isWord_of_stepNames hts.right hmore⟩

/-- The parts of a key without quotes are words. -/
theorem IsKey.isWord_of_keySegments {path : Traversal} (h : IsKey ts (.path path))
    (hts : HasWords ts) (hnames : Decoding.keySegments (.path path) = .ok names) :
    ∀ name ∈ names, Value.IsWord name := by
  cases h with
  | path hpath =>
    cases hpath with
    | @mk t ts root steps ht hsteps =>
      rcases ValueType.map_eq_ok.1 hnames with ⟨more, hmore, rfl⟩
      have hrest : HasWords ts := fun u hu => hts u (List.mem_cons_of_mem _ hu)
      exact List.forall_mem_cons.2
        ⟨hts t List.mem_cons_self root ht, hsteps.isWord_of_stepNames hrest hmore⟩

end Hcl

namespace Decoding

variable {addressing : Addressing} {filename content : String} {names : List String}
  {target : Target}

/-! ## Keys that are checked -/

theorem dottedKey_eq_ok {key : String} (h : dottedKey key = .ok names) :
    names = Text.splitDots key ∧ ∀ name ∈ names, isIdentifier name = true := by
  unfold dottedKey at h
  dsimp only at h
  split_ifs at h with hall
  cases h
  exact ⟨rfl, List.all_eq_true.1 hall⟩

/-- A key in quotes that is made of names with dots between them is taken exactly when all of them
are identifiers. -/
theorem dottedKey_joinDots (hne : names ≠ []) (hdots : ∀ name ∈ names, '.' ∉ name.toList) :
    dottedKey (Text.joinDots names) =
      if names.all isIdentifier then .ok names
      else .error (malformedKeyDetail (Text.joinDots names)) := by
  unfold dottedKey
  rw [Text.splitDots_joinDots hne hdots]

/-- The address that a key leads to is valid if the parts of the key are identifiers. -/
theorem valid_of_resolveKey (hroot : addressing.root.Valid)
    (hnames : ∀ name ∈ names, isIdentifier name = true)
    (h : addressing.scheme.resolveKey addressing.root names = .ok target) : target.Valid :=
  (Scheme.resolveKey_valid_iff hroot
    (fun name hname => dot_not_mem_of_isIdentifier (hnames name hname)) h).2 hnames

theorem targetOf?_valid {key : String} (hroot : addressing.root.Valid)
    (h : addressing.targetOf? key = some target) : target.Valid := by
  rcases exists_segments_of_targetOf? h with ⟨names, hkey, hresolve⟩
  exact valid_of_resolveKey hroot (dottedKey_eq_ok hkey).2 hresolve

/-! ## What is recorded -/

/-- A document that is decoded without errors records overrides of variables that names address. -/
theorem exists_targetOf?_of_document {format : Format} {parsed : Except Diagnostic Json}
    {o : Override}
    (hclean : (document addressing filename content format parsed).diagnostics.hasErrors = false)
    (ho : o ∈ (document addressing filename content format parsed).overrides.entries) :
    ∃ key, addressing.targetOf? key = some o.target := by
  rcases parsed with d | x
  · cases ho
  · cases x with
    | object members =>
      obtain ⟨haccepted, heach⟩ := @document_object addressing filename content format members
      have hsome := List.mem_map_of_mem (f := some) ho
      rw [heach (haccepted.1 hclean)] at hsome
      rcases List.mem_map.1 hsome with ⟨member, -, hmember⟩
      rcases Option.map_eq_some_iff.1 hmember with ⟨target, htarget, rfl⟩
      exact ⟨member.1, htarget⟩
    | _ => cases ho

theorem document_valid (hroot : addressing.root.Valid) {format : Format}
    {parsed : Except Diagnostic Json} :
    ∀ o ∈ ((document addressing filename content format parsed).toFile filename
      content).overrides.entries, o.target.Valid := by
  intro o ho
  by_cases herrors :
      (document addressing filename content format parsed).diagnostics.hasErrors = true
  · rw [Record.toFile, if_pos herrors] at ho
    cases ho
  · rcases exists_targetOf?_of_document (Bool.eq_false_iff.2 herrors) (Record.mem_of_toFile ho)
      with ⟨key, hkey⟩
    exact targetOf?_valid hroot hkey

/-- Whether a key that is written without quotes is made of identifiers. -/
def NamesIdentifiers (key : Hcl.Key) : Prop :=
  ∀ path names, key = .path path → keySegments key = .ok names →
    ∀ name ∈ names, isIdentifier name = true

/-- The address of an assignment is valid unless its key is written without quotes and is not made
of identifiers. -/
theorem Gives.valid_iff {us : List Hcl.Token} {e : Hcl.Entry} {value : Value}
    (hroot : addressing.root.Valid) (he : Hcl.IsAssignment us e) (hus : Hcl.HasWords us)
    (hgives : Gives addressing e target value) : target.Valid ↔ NamesIdentifiers e.key := by
  rcases hgives with ⟨⟨names, hnames, hresolve⟩, -⟩
  cases he with
  | @mk ks vs t key value hkey ht hvalue =>
    change keySegments key = .ok names at hnames
    show target.Valid ↔ NamesIdentifiers key
    cases key with
    | path path =>
      -- The names need not be identifiers, but as words they have no dots, so none of them can
      -- pass for two parts of a package ID.
      have hwords := hkey.isWord_of_keySegments hus.left hnames
      rw [Scheme.resolveKey_valid_iff hroot
        (fun name hname => dot_not_mem_of_isWord (hwords name hname)) hresolve]
      constructor
      · intro hall path' names' hpath hnames'
        cases hnames.symm.trans hnames'
        exact hall
      · intro hkey
        exact hkey path names rfl hnames
    | expr e =>
      -- A key in quotes is checked, and nothing else is taken here.
      have hvalid : target.Valid := by
        cases e with
        | string text span => exact valid_of_resolveKey hroot (dottedKey_eq_ok hnames).2 hresolve
        | _ => cases hnames
      constructor
      · rintro - path names' ⟨⟩
      · exact fun _ => hvalid

theorem forall_valid_iff {us : List Hcl.Token} {w : Hcl.Wrapped} {es : List Hcl.Entry}
    {os : List Override} (hroot : addressing.root.Valid)
    (hes : ∀ e ∈ es, ∃ vs, vs <:+: us ∧ Hcl.IsAssignment vs e) (hus : Hcl.HasWords us)
    (h : List.Forall₂ (Records addressing filename w) es os) :
    (∀ o ∈ os, o.target.Valid) ↔ ∀ e ∈ es, NamesIdentifiers e.key := by
  induction h with
  | nil => simp
  | @cons e o es os ho _ ih =>
    rw [List.forall_mem_cons] at hes
    rcases hes.1 with ⟨vs, hvs, he⟩
    have hwords : Hcl.HasWords vs := fun t ht => hus t (hvs.subset ht)
    rw [List.forall_mem_cons, List.forall_mem_cons, ho.gives.valid_iff hroot he hwords, ih hes.2]

theorem native_valid_iff (hroot : addressing.root.Valid)
    (h : (native addressing filename content).diagnostics.hasErrors = false) :
    ∃ c, (Hcl.Container.parse (Hcl.Wrapped.text ⟨content⟩) filename).tree = some c ∧
      ((∀ o ∈ (native addressing filename content).overrides.entries, o.target.Valid) ↔
        ∀ e ∈ c.entries, NamesIdentifiers e.key) := by
  rcases native_clean h with ⟨-, -, c, htree, hentries, hrecords⟩
  refine ⟨c, htree, forall_valid_iff hroot hentries.exists_infix ?_ hrecords⟩
  intro t ht name hname
  rcases List.mem_map.1 ht with ⟨u, hu, rfl⟩
  exact Hcl.Tokens.hasWords_ofText content u hu name hname

/-- If the root's ID is valid, every override that is recorded has a valid address, whatever
documents are read with, but for one case: in a file of the configuration language a key that is written without quotes is taken even if
it is not made of identifiers. In quotes such a key is refused. -/
theorem recorded_addresses (hroot : addressing.root.Valid) :
    (∀ filename content format documents, format ≠ .native →
      ∀ o ∈ (source addressing filename content format documents).overrides.entries,
        o.target.Valid) ∧
    (∀ declared origin key raw o, inline addressing declared origin key raw = .ok o →
      o.target.Valid) ∧
    (∀ filename content,
      (∀ o ∈ (source addressing filename content .native).overrides.entries, o.target.Valid) ↔
        ((source addressing filename content .native).diagnostics.hasErrors = false →
          ∀ c, (Hcl.Container.parse (Hcl.Wrapped.text ⟨content⟩) filename).tree = some c →
            ∀ e ∈ c.entries, NamesIdentifiers e.key)) ∧
    ∀ path names span, keySegments (.path path) = .ok names →
      (∀ name ∈ names, '.' ∉ name.toList) →
        keySegments (.expr (.string (Text.joinDots names) span)) =
          if names.all isIdentifier then .ok names
          else .error (malformedKeyDetail (Text.joinDots names)) := by
  refine ⟨?_, ?_, ?_, ?_⟩
  · intro filename content format documents hformat
    cases format with
    | native => exact absurd rfl hformat
    | json => exact document_valid hroot
    | yaml => exact document_valid hroot
    | toml => exact document_valid hroot
  · intro declared origin key raw o ho
    exact targetOf?_valid hroot (inline_eq_ok ho).1
  · intro filename content
    rw [source_native, Record.toFile_diagnostics]
    by_cases hclean : (native addressing filename content).diagnostics.hasErrors = false
    · rw [Record.toFile_clean hclean]
      rcases native_valid_iff hroot hclean with ⟨c, htree, hvalid⟩
      rw [hvalid]
      constructor
      · intro hkeys _ c' htree'
        cases htree.symm.trans htree'
        exact hkeys
      · exact fun hkeys => hkeys hclean c htree
    · -- Nothing is recorded of a file with errors.
      constructor
      · exact fun _ h => absurd h hclean
      · intro _ o ho
        rw [Record.toFile, if_pos (Bool.not_eq_false _ ▸ hclean)] at ho
        cases ho
  · intro path names span hnames hdots
    have hne : names ≠ [] := by
      rintro rfl
      rcases ValueType.map_eq_ok.1 hnames with ⟨more, -, hcons⟩
      cases hcons
    exact dottedKey_joinDots hne hdots

theorem recorded_addresses_root :
    let addressing : Addressing := ⟨⟨"web"⟩, .hierarchical⟩
    let file := source addressing "o.json" "\x7b\"size\": 1, \"web.redis.size\": 2\x7d" .json
    addressing.root.Valid ∧
      file.overrides.entries.map Override.target = [⟨⟨"web"⟩, "size"⟩, ⟨⟨"web.redis"⟩, "size"⟩] ∧
      ∀ o ∈ file.overrides.entries, o.target.Valid := by
  intro addressing file
  have hroot : addressing.root.Valid := by
    unfold PackageId.Valid
    decide +kernel
  refine ⟨hroot, by decide +kernel, ?_⟩
  exact (recorded_addresses hroot).1 _ _ .json .standard (by decide)

/-- A key without quotes is not checked, and in quotes it is. -/
theorem bareKey_unchecked :
    let addressing : Addressing := ⟨⟨"web"⟩, .hierarchical⟩
    let bare := source addressing "o.vars" "é = 1\n" .native
    let quoted := source addressing "o.vars" "\"é\" = 1\n" .native
    addressing.root.Valid ∧ bare.diagnostics = [] ∧
      bare.overrides.entries.map Override.target = [⟨⟨"web"⟩, "é"⟩] ∧
      ¬Target.Valid ⟨⟨"web"⟩, "é"⟩ ∧ quoted.diagnostics.hasErrors = true := by
  intro addressing bare quoted
  refine ⟨?_, by decide +kernel, by decide +kernel, ?_, by decide +kernel⟩
  · unfold PackageId.Valid
    decide +kernel
  · intro hvalid
    exact absurd hvalid.variableName (by decide)

end Decoding

end Overlay
