import Overlay.Source.Decoding

/-!
# Single values

* `Addressing.targetOf?` is the variable that a key addresses.
* A single value is an override of that variable, and whether there is one depends on its text and
  on the declared type alone (`inline_of_targetOf?`, `inline_eq_ok`).
-/

namespace Overlay

/-- The variable that a key addresses, if the key is an address. -/
def Addressing.targetOf? (addressing : Addressing) (key : String) : Option Target :=
  match Decoding.dottedKey key with
  | .ok segments => (addressing.scheme.resolveKey addressing.root segments).toOption
  | .error _ => none

namespace Decoding

variable {addressing : Addressing} {declared : VariableMap} {source : OverrideSource}
  {key raw : String} {o : Override} {target : Target}

/-- A key is an address if it is made of names that the scheme resolves. -/
theorem exists_segments_of_targetOf? (h : addressing.targetOf? key = some target) :
    ∃ segments, dottedKey key = .ok segments ∧
      addressing.scheme.resolveKey addressing.root segments = .ok target := by
  unfold Addressing.targetOf? at h
  split at h
  · next segments hkey =>
    cases hresolve : addressing.scheme.resolveKey addressing.root segments with
    | error detail =>
      rw [hresolve] at h
      cases h
    | ok t =>
      rw [hresolve] at h
      cases h
      exact ⟨segments, hkey, hresolve⟩
  · cases h

/-- What a single value is an override of does not depend on its text. -/
theorem inline_of_targetOf? (h : addressing.targetOf? key = some target) :
    inline addressing declared source key raw =
      (inlineValue ((declared.lookup? target).bind Variable.type) raw (inlineName source)).map
        fun v => ⟨target, v, (declared.lookup? target).bind Variable.type,
          .whole (inlineName source) raw, source⟩ := by
  rcases exists_segments_of_targetOf? h with ⟨segments, hkey, hresolve⟩
  unfold inline
  rw [hkey]
  show ((addressing.scheme.resolveKey addressing.root segments).mapError _ >>= _) = _
  rw [hresolve]
  show (inlineValue _ raw _ >>= _) = _
  cases inlineValue ((declared.lookup? target).bind Variable.type) raw (inlineName source) with
  | error ds => rfl
  | ok v => rfl

/-- A single value that is an override has a key that addresses a variable. -/
theorem exists_targetOf?_of_inline (h : inline addressing declared source key raw = .ok o) :
    ∃ target, addressing.targetOf? key = some target := by
  unfold inline at h
  cases hkey : dottedKey key with
  | error detail =>
    rw [hkey] at h
    cases h
  | ok segments =>
    rw [hkey] at h
    cases hresolve : addressing.scheme.resolveKey addressing.root segments with
    | error detail =>
      have hfault : ((addressing.scheme.resolveKey addressing.root segments).mapError _ >>= _) =
          .ok o := h
      rw [hresolve] at hfault
      cases hfault
    | ok target =>
      refine ⟨target, ?_⟩
      unfold Addressing.targetOf?
      rw [hkey]
      show (addressing.scheme.resolveKey addressing.root segments).toOption = some target
      rw [hresolve]
      rfl

/-- A single value is an override of the variable that its key addresses, with the type of that
variable. -/
theorem inline_eq_ok (h : inline addressing declared source key raw = .ok o) :
    addressing.targetOf? key = some o.target ∧ o.source = source ∧
      o.type = (declared.lookup? o.target).bind Variable.type ∧
        inlineValue o.type raw (inlineName source) = .ok o.value := by
  rcases exists_targetOf?_of_inline h with ⟨target, htarget⟩
  rw [inline_of_targetOf? htarget] at h
  cases hvalue : inlineValue ((declared.lookup? target).bind Variable.type) raw
      (inlineName source) with
  | error ds =>
    rw [hvalue] at h
    cases h
  | ok v =>
    rw [hvalue] at h
    cases h
    exact ⟨htarget, rfl, rfl, hvalue⟩

/-- The value for a variable that is not declared is its text. -/
theorem inline_undeclared (h : addressing.targetOf? key = some target)
    (hmissing : declared.lookup? target = none) :
    inline addressing declared source key raw =
      .ok ⟨target, .string raw, none, .whole (inlineName source) raw, source⟩ := by
  rw [inline_of_targetOf? h, hmissing]
  rfl

end Decoding

end Overlay
