import Overlay.Hcl.Container

/-!
# Ordered choice

Rules that can refuse the tokens in front of them, and the ways to put them together.

* A `Rule` takes tokens from the front, or refuses them, or is stuck. `choice` tries one alternative
  after the other at the same place; what a refused alternative took and reported is forgotten.
* `many` repeats a rule until it refuses. It is stuck where the rule takes nothing, since it would go on
  forever.
* `recursive` is a rule that is made from itself. It is stuck where it calls itself deeper than the
  setting allows. What is stuck stays stuck, so a rule that takes something has used neither.
-/

namespace Overlay.Hcl

/-- What rules are run with: what stands around the tokens, whether the last closing brace ends them
too, and how deep a rule may call itself. -/
structure Setting extends Frame where
  closes : Bool
  depth : Nat

/-- What a rule comes to. -/
inductive Outcome (α : Type) where
  | taken (x : Parsed α)
  | refused
  | stuck

namespace Outcome

variable {α β : Type}

/-- What stands behind faults. -/
def after (faults : List (Located SyntaxFault)) : Outcome α → Outcome α
  | taken x => taken ⟨x.value, x.next, faults ++ x.faults⟩
  | refused => refused
  | stuck => stuck

/-- What comes of it behind what was taken. -/
def andThen (f : Parsed α → Outcome β) : Outcome α → Outcome β
  | taken x => (f x).after x.faults
  | refused => refused
  | stuck => stuck

/-- Another attempt, where the first one is refused. -/
def orElse : Outcome α → (next : Outcome α) → Outcome α
  | taken x, _ => taken x
  | refused, next => next
  | stuck, _ => stuck

end Outcome

/-- A rule of the grammar. -/
def Rule (α : Type) : Type := Setting → Cursor → Outcome α

namespace Rule

variable {α β : Type}

instance : Monad Rule where
  pure a := fun _ c => .taken ⟨a, c, []⟩
  bind r f := fun S c => (r S c).andThen fun x => f x.value S x.next

/-! ## Tokens -/

/-- The next token, if something can be made of its kind. -/
def select (f : TokenKind → Option α) : Rule α := fun _ c =>
  match c.rest with
  | [] => .refused
  | t :: ts =>
    match f t.kind with
    | some a => .taken ⟨a, ⟨t.span.stop, ts⟩, []⟩
    | none => .refused

/-- The next token, if its kind passes `test`. -/
def satisfy (test : TokenKind → Bool) : Rule Unit := select fun k => if test k then some () else none

/-- The mark `m`. -/
def just (m : Mark) : Rule Unit := satisfy (· == .mark m)

/-- Any token. -/
def any : Rule Unit := satisfy fun _ => true

/-- The end of the tokens, and its span. -/
def ending : Rule Span := fun S c =>
  match c.rest with
  | [] => .taken ⟨S.ending, c, []⟩
  | _ :: _ => .refused

/-- How messages call the next token. -/
def found : Rule String := fun S c =>
  let text := match c.rest with
    | t :: _ => if S.fileEnd ≤ t.span.start.byte then "end of file" else t.kind.describe
    | [] => "end of file"
  .taken ⟨text, c, []⟩

/-- Goes on where the last closing brace ends the tokens. -/
def closes : Rule Unit := fun S c => if S.closes then .taken ⟨(), c, []⟩ else .refused

/-- Reports a fault. -/
def emit (fault : SyntaxFault) (span : Span) : Rule Unit := fun _ c => .taken ⟨(), c, [⟨fault, span⟩]⟩

/-! ## Combinations -/

/-- The first alternative that does not refuse. -/
def choice : List (Rule α) → Rule α
  | [] => fun _ _ => .refused
  | r :: rs => fun S c => (r S c).orElse (choice rs S c)

/-- The rule, if it takes anything. -/
def optional (r : Rule α) : Rule (Option α) := choice [do return some (← r), pure none]

/-- Looks ahead: what the rule takes stays in place. -/
def ahead (r : Rule α) : Rule α := fun S c => (r S c).andThen fun x => .taken ⟨x.value, c, []⟩

/-- Goes on where the rule refuses. -/
def absent (r : Rule α) : Rule Unit := fun S c =>
  match r S c with
  | .taken _ => .refused
  | .refused => .taken ⟨(), c, []⟩
  | .stuck => .stuck

/-- The rule and the span of what it takes. -/
def spanned (r : Rule α) : Rule (α × Span) := fun S c =>
  (r S c).andThen fun x =>
    let span := match c.rest with
      | [] => S.ending
      | t :: _ => ⟨t.span.start, x.next.last⟩
    .taken ⟨(x.value, span), x.next, []⟩

/-- The span of what the rule takes. -/
def spanOf (r : Rule α) : Rule Span := do return (← spanned r).2

/-- What the rule takes at a place and behind it, as often as it takes something. -/
def manyFrom (r : Rule α) (S : Setting) (c : Cursor) : Outcome (List α) :=
  match r S c with
  | .taken x =>
    if _h : x.next.rest.length < c.rest.length then
      ((manyFrom r S x.next).andThen fun y => .taken ⟨x.value :: y.value, y.next, []⟩).after x.faults
    else .stuck
  | .refused => .taken ⟨[], c, []⟩
  | .stuck => .stuck
termination_by c.rest.length

/-- The rule as often as it takes something. -/
def many (r : Rule α) : Rule (List α) := manyFrom r

/-- What `item` takes, with `separator` between. A separator without an item behind it is taken too. -/
def separated (item : Rule α) (separator : Rule β) : Rule (List α) :=
  choice [
    do
      let first ← item
      let rest ← many (do discard separator; item)
      discard (optional separator)
      return first :: rest,
    pure []]

/-- The rule that `f` makes from itself, up to `depth` calls deep. -/
def unroll (f : Rule α → Rule α) : (depth : Nat) → Rule α
  | 0 => fun _ _ => .stuck
  | depth + 1 => f (unroll f depth)

/-- The rule that `f` makes from itself. -/
def recursive (f : Rule α → Rule α) : Rule α := fun S => unroll f S.depth S

end Rule

/-! ## Runs -/

namespace Outcome

variable {α : Type}

@[simp] theorem after_nil (o : Outcome α) : o.after [] = o := by cases o <;> rfl

@[simp] theorem orElse_refused (o : Outcome α) : o.orElse .refused = o := by cases o <;> rfl

theorem andThen_pure (o : Outcome α) : (o.andThen fun x => taken ⟨x.value, x.next, []⟩) = o := by
  cases o with
  | taken x => exact congrArg taken (by rw [List.append_nil])
  | _ => rfl

theorem after_andThen {β : Type} (faults : List (Located SyntaxFault)) (o : Outcome α)
    (f : Parsed α → Outcome β) (hf : ∀ a c us vs, f ⟨a, c, us⟩ = f ⟨a, c, vs⟩) :
    (o.after faults).andThen f = (o.andThen f).after faults := by
  cases o with
  | taken x =>
    show (f ⟨x.value, x.next, faults ++ x.faults⟩).after (faults ++ x.faults) =
      ((f x).after x.faults).after faults
    rw [hf x.value x.next _ x.faults]
    cases f ⟨x.value, x.next, x.faults⟩ with
    | taken y => simp only [after, List.append_assoc]
    | _ => rfl
  | _ => rfl

end Outcome

/-- Rules one behind the other are one rule, however they are grouped. -/
instance : LawfulMonad Rule :=
  LawfulMonad.mk' Rule
    (fun r => by
      funext S c
      exact (r S c).andThen_pure)
    (fun a f => by
      funext S c
      exact (f a S c).after_nil)
    (fun r f g => by
      funext S c
      show ((r S c).andThen _).andThen _ = (r S c).andThen _
      cases r S c with
      | taken x => exact Outcome.after_andThen _ _ _ fun _ _ _ _ => rfl
      | _ => rfl)

namespace Rule

variable {α β : Type} {r : Rule α} {f : α → Rule β} {S : Setting} {c : Cursor} {x : Parsed α}

theorem bind_taken (h : r S c = .taken x) : (r >>= f) S c = (f x.value S x.next).after x.faults := by
  show (r S c).andThen _ = _
  rw [h]
  rfl

/-- A rule without faults, and another one behind it. -/
theorem bind_silent {a : α} {c' : Cursor} (h : r S c = .taken ⟨a, c', []⟩) :
    (r >>= f) S c = f a S c' := by
  rw [bind_taken h, Outcome.after_nil]

theorem bind_refused (h : r S c = .refused) : (r >>= f) S c = .refused := by
  show (r S c).andThen _ = _
  rw [h]
  rfl

/-- A rule behind which another one refuses. -/
theorem bind_taken_refused (h : r S c = .taken x) (hf : f x.value S x.next = .refused) :
    (r >>= f) S c = .refused := by
  rw [bind_taken h, hf]
  rfl

theorem discard_taken (h : r S c = .taken x) :
    (discard r : Rule Unit) S c = .taken ⟨(), x.next, x.faults⟩ := by
  have hbind : (discard r : Rule Unit) S c = (r >>= fun _ => pure ()) S c := rfl
  rw [hbind, bind_taken h]
  show Outcome.taken ⟨(), x.next, x.faults ++ []⟩ = _
  rw [List.append_nil]

theorem discard_refused (h : r S c = .refused) : (discard r : Rule Unit) S c = .refused := by
  have hbind : (discard r : Rule Unit) S c = (r >>= fun _ => pure ()) S c := rfl
  rw [hbind, bind_refused h]

/-- Rules that do the same at a place, and another one behind them. -/
theorem bind_congr_at {r' : Rule α} (h : r S c = r' S c) : (r >>= f) S c = (r' >>= f) S c := by
  show (r S c).andThen _ = (r' S c).andThen _
  rw [h]

/-- A rule for a value that is used in one place. -/
theorem return_taken (h : r S c = .taken x) (g : α → β) :
    (r >>= fun a => pure (g a)) S c = .taken ⟨g x.value, x.next, x.faults⟩ := by
  rw [bind_taken h]
  show Outcome.taken ⟨g x.value, x.next, x.faults ++ []⟩ = _
  rw [List.append_nil]

/-! ### Combinations -/

theorem choice_taken {rs : List (Rule α)} (h : r S c = .taken x) :
    choice (r :: rs) S c = .taken x := by
  show (r S c).orElse _ = _
  rw [h]
  rfl

theorem choice_refused {rs : List (Rule α)} (h : r S c = .refused) :
    choice (r :: rs) S c = choice rs S c := by
  show (r S c).orElse _ = _
  rw [h]
  rfl

/-- The last alternative. -/
theorem choice_single (r : Rule α) : choice [r] S c = r S c := Outcome.orElse_refused _

/-- An alternative that refuses makes no difference. -/
theorem choice_drop {r' : Rule α} {rs : List (Rule α)} (h : r' S c = .refused) :
    choice (r :: r' :: rs) S c = choice (r :: rs) S c := by
  show (r S c).orElse (choice (r' :: rs) S c) = _
  rw [choice_refused h]
  rfl

theorem optional_taken (h : r S c = .taken x) :
    optional r S c = .taken ⟨some x.value, x.next, x.faults⟩ :=
  choice_taken (return_taken h some)

theorem optional_refused (h : r S c = .refused) : optional r S c = .taken ⟨none, c, []⟩ := by
  unfold optional
  rw [choice_refused (bind_refused h)]
  rfl

theorem ahead_taken {a : α} {d : Cursor} (h : r S c = .taken ⟨a, d, []⟩) :
    ahead r S c = .taken ⟨a, c, []⟩ := by
  unfold ahead
  rw [h]
  rfl

theorem ahead_refused (h : r S c = .refused) : ahead r S c = .refused := by
  unfold ahead
  rw [h]
  rfl

theorem absent_taken (h : r S c = .taken x) : absent r S c = .refused := by
  unfold absent
  rw [h]

theorem absent_refused (h : r S c = .refused) : absent r S c = .taken ⟨(), c, []⟩ := by
  unfold absent
  rw [h]

theorem spanned_refused (h : r S c = .refused) : spanned r S c = .refused := by
  unfold spanned
  rw [h]
  rfl

theorem spanned_taken {last : Pos} {t : Token} {ts : List Token}
    (h : r S ⟨last, t :: ts⟩ = .taken x) :
    spanned r S ⟨last, t :: ts⟩ = .taken ⟨(x.value, ⟨t.span.start, x.next.last⟩), x.next, x.faults⟩ := by
  unfold spanned
  rw [h]
  show Outcome.taken ⟨_, _, x.faults ++ []⟩ = _
  rw [List.append_nil]

theorem spanOf_refused (h : r S c = .refused) : spanOf r S c = .refused :=
  bind_refused (spanned_refused h)

theorem spanOf_taken {last : Pos} {t : Token} {ts : List Token}
    (h : r S ⟨last, t :: ts⟩ = .taken x) :
    spanOf r S ⟨last, t :: ts⟩ = .taken ⟨⟨t.span.start, x.next.last⟩, x.next, x.faults⟩ :=
  return_taken (spanned_taken h) Prod.snd

theorem many_refused (h : r S c = .refused) : many r S c = .taken ⟨[], c, []⟩ := by
  unfold many
  rw [manyFrom, h]

/-- A rule that takes a token is repeated behind it. -/
theorem many_taken {y : Parsed (List α)} (h : r S c = .taken x)
    (hlt : x.next.rest.length < c.rest.length) (hrest : many r S x.next = .taken y) :
    many r S c = .taken ⟨x.value :: y.value, y.next, x.faults ++ y.faults⟩ := by
  unfold many at hrest ⊢
  rw [manyFrom, h]
  dsimp only
  rw [dif_pos hlt, hrest]
  simp only [Outcome.andThen, Outcome.after, List.append_nil]

/-- A rule is repeated if it takes something, and else not. -/
theorem many_cases {y : Parsed (List α)} (h : many r S c = .taken y) :
    r S c = .refused ∧ y = ⟨[], c, []⟩ ∨
      ∃ x z, r S c = .taken x ∧ many r S x.next = .taken z ∧
        y = ⟨x.value :: z.value, z.next, x.faults ++ z.faults⟩ := by
  unfold many at h ⊢
  rw [manyFrom] at h
  cases hr : r S c with
  | refused =>
    rw [hr] at h
    cases h
    exact .inl ⟨rfl, rfl⟩
  | stuck =>
    rw [hr] at h
    cases h
  | taken x =>
    rw [hr] at h
    dsimp only at h
    split at h
    · -- A rule that takes no token makes the repetition stuck, so tokens were taken here.
      cases hrest : manyFrom r S x.next with
      | taken z =>
        rw [hrest] at h
        cases h
        refine .inr ⟨x, z, rfl, hrest, ?_⟩
        simp
      | refused =>
        rw [hrest] at h
        cases h
      | stuck =>
        rw [hrest] at h
        cases h
    · cases h

/-- A repeated rule and what stands behind it, `K`, where `g` puts one more value in front. -/
theorem many_bind_taken {K : List α → Rule β} {g : β → β} {y : Parsed β} (h : r S c = .taken x)
    (hlt : x.next.rest.length < c.rest.length)
    (hK : ∀ as c z, K as S c = .taken z → K (x.value :: as) S c = .taken ⟨g z.value, z.next, z.faults⟩)
    (hrest : (many r >>= K) S x.next = .taken y) :
    (many r >>= K) S c = .taken ⟨g y.value, y.next, x.faults ++ y.faults⟩ := by
  -- Behind the first item the repetition and what comes behind it are known as a whole only.
  have hbind : (many r >>= K) S x.next =
      (many r S x.next).andThen fun z => K z.value S z.next := rfl
  rw [hbind] at hrest
  cases hmany : many r S x.next with
  | refused =>
    rw [hmany] at hrest
    cases hrest
  | stuck =>
    rw [hmany] at hrest
    cases hrest
  | taken w =>
    rw [hmany] at hrest
    rw [bind_taken (many_taken h hlt hmany)]
    dsimp only [Outcome.andThen] at hrest ⊢
    cases hbehind : K w.value S w.next with
    | refused =>
      rw [hbehind] at hrest
      cases hrest
    | stuck =>
      rw [hbehind] at hrest
      cases hrest
    | taken z =>
      rw [hbehind] at hrest
      cases hrest
      rw [hK _ _ _ hbehind]
      show Outcome.taken ⟨_, _, (x.faults ++ w.faults) ++ z.faults⟩ = _
      rw [List.append_assoc]

/-- What stands behind a repeated rule, with one more value in front. -/
theorem bind_pure_taken {γ : Type} {f : α → γ} {y : Parsed γ} (g : γ → γ)
    (h : (r >>= fun a => pure (f a)) S c = .taken y) :
    (r >>= fun a => pure (g (f a))) S c = .taken ⟨g y.value, y.next, y.faults⟩ := by
  have hmap : (r >>= fun a => pure (g (f a))) =
      (r >>= fun a => pure (f a)) >>= fun b => (pure (g b) : Rule γ) := by
    simp only [bind_assoc, pure_bind]
  rw [hmap, return_taken h]

/-! ### Tokens -/

theorem ending_taken (h : c.rest = []) : ending S c = .taken ⟨S.ending, c, []⟩ := by
  unfold ending
  rw [h]

theorem ending_refused (h : c.rest ≠ []) : ending S c = .refused := by
  unfold ending
  cases hrest : c.rest with
  | nil => exact absurd hrest h
  | cons => rfl

theorem select_taken {g : TokenKind → Option α} {a : α} {last : Pos} {t : Token} {ts : List Token}
    (h : g t.kind = some a) :
    select g S ⟨last, t :: ts⟩ = .taken ⟨a, ⟨t.span.stop, ts⟩, []⟩ := by
  unfold select
  dsimp only
  rw [h]

theorem select_refused {g : TokenKind → Option α} {last : Pos} {t : Token} {ts : List Token}
    (h : g t.kind = none) : select g S ⟨last, t :: ts⟩ = .refused := by
  unfold select
  dsimp only
  rw [h]

theorem satisfy_taken {test : TokenKind → Bool} {last : Pos} {t : Token} {ts : List Token}
    (h : test t.kind = true) :
    satisfy test S ⟨last, t :: ts⟩ = .taken ⟨(), ⟨t.span.stop, ts⟩, []⟩ :=
  select_taken (if_pos h)

theorem satisfy_refused {test : TokenKind → Bool} {last : Pos} {t : Token} {ts : List Token}
    (h : test t.kind = false) : satisfy test S ⟨last, t :: ts⟩ = .refused :=
  select_refused (if_neg (Bool.eq_false_iff.1 h))

theorem just_taken {m : Mark} {last : Pos} {t : Token} {ts : List Token} (h : t.kind = .mark m) :
    just m S ⟨last, t :: ts⟩ = .taken ⟨(), ⟨t.span.stop, ts⟩, []⟩ :=
  satisfy_taken (beq_iff_eq.2 h)

theorem just_refused {m : Mark} {last : Pos} {t : Token} {ts : List Token} (h : t.kind ≠ .mark m) :
    just m S ⟨last, t :: ts⟩ = .refused :=
  satisfy_refused (beq_eq_false_iff_ne.2 h)

end Rule

end Overlay.Hcl
