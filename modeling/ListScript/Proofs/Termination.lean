import Mathlib.Data.List.Nodup
import ListScript.Proofs.Sequence

/-!
# Scripts without calls end

In a script the interpreter comes to scripts in scripts and to expressions, unless a call or the body of a function takes
it elsewhere. `Store.CallFree` says that none of the expressions that it comes to is a call, and lists what it comes to:
the code, lists that are run or read as expressions, and the data, values that the expressions hand on. If each list of
the code stands in one place and cannot be reached from the data, the context or the evaluator, then no write of the run
gets at the code, so that the run ends and evaluates each expression once at most (`Store.CallFree.evaluates`).

The evaluator counts as well: a script that gets hold of the evaluator, by way of a function that it makes, can
reach the arguments of the active calls, or set the method with which the evaluator runs scripts
(`Store.CallFree.not_evaluates`).
-/

namespace ListScript

open Effect Logged

/-! ## Code and data of a script -/

namespace Store

variable {s : Store} {expression tag : Value} {params items : List Value} {flavor : Flavor} {command : Command} {r : Ref}

end Store

/-! ## Code out of reach -/

namespace Ward

section Kept

variable {s t : Store} {roots : List Value} {r : Ref} {c c' : Cell}

end Kept

end Ward

/-! ## Expressions in the order of their evaluation -/

namespace Moment

/-- The list that is evaluated as an expression, if the task is to do so. -/
def ownList (m : Moment) : List Ref :=
  match m.task with
  | .expression _ (.ref r) _ => if m.state.store.isList (.ref r) then [r] else []
  | _ => []

/-- The lists that are evaluated as expressions in the course of a task, in order, up to a depth of nesting. -/
def evaluated : Nat → Moment → List Ref
  | 0, _ => []
  | depth + 1, m => m.ownList ++ m.events.flatMap fun ev => evaluated depth ev.moment

end Moment

namespace Ward

variable {w : Ward} {engine : Ref} {α β : Type}

/-- From a state with the property of a ward, the effect ends if the fuel is `enough`, keeps that property, gives a value
with a property, and evaluates expressions of the code, each once at most and in their order; provided that what it comes
to abides by the ward and that nothing ever stands in for an evaluator. -/
def OrderlyAt (w : Ward) (engine : Ref) (enough : Prop) (code : List Ref) (p : Logged α) (P : α → Prop) (st : State) :
    Prop :=
  w.inv st.store → (∀ ev ∈ p.log st, ∀ m, ev.moment.Reaches m → w.Abides m ∧ m.state.store.RunsItself engine) →
    (enough → p.run st ≠ .exhausted) ∧ w.discipline.Allows () (fun _ => P) (p.run st) ∧
      ∀ depth, ((p.log st).flatMap fun ev => ev.moment.evaluated depth).Sublist code

/-- The effect does so from every state. -/
def Orderly (w : Ward) (engine : Ref) (enough : Prop) (code : List Ref) (p : Logged α) (P : α → Prop) : Prop :=
  ∀ st, w.OrderlyAt engine enough code p P st

section Rules

variable {enough enough' : Prop} {code code' : List Ref} {act : Effect α} {p : Logged α} {P : α → Prop} {Q : β → Prop}

theorem Orderly.mono (h : w.Orderly engine enough code p P) (henough : enough' → enough) (hcode : code.Sublist code') :
    w.Orderly engine enough' code' p P := fun st hs habides =>
  ⟨fun he => (h st hs habides).1 (henough he), (h st hs habides).2.1,
    fun depth => ((h st hs habides).2.2 depth).trans hcode⟩

theorem Orderly.bind {f : α → Logged β} (h : w.Orderly engine enough code p P) (hf : ∀ a, P a → w.Orderly engine enough code' (f a) Q) :
    w.Orderly engine enough (code ++ code') (p >>= f) Q := by
  intro st hs habides
  obtain ⟨hends, hallows, hcode⟩ := h st hs fun ev hev => habides ev (List.mem_append_left _ hev)
  have hrest : ∀ ev ∈ logAfter f (p.run st), ∀ m, ev.moment.Reaches m → w.Abides m ∧ m.state.store.RunsItself engine :=
    fun ev hev => habides ev (List.mem_append_right _ hev)
  change (enough → Effect.bind p.run _ st ≠ .exhausted) ∧ w.discipline.Allows () _ (Effect.bind p.run _ st) ∧
    ∀ depth, ((p.log st ++ logAfter f (p.run st)).flatMap _).Sublist _
  simp only [List.flatMap_append]
  unfold Effect.bind
  cases hrun : p.run st with
  | value a st' =>
    rw [hrun] at hallows hrest
    obtain ⟨_, -, hs', ha⟩ := hallows
    obtain ⟨hends', hallows', hcode'⟩ := hf a ha st' hs' hrest
    exact ⟨hends', hallows', fun depth => (hcode depth).append (hcode' depth)⟩
  | raised e st' =>
    rw [hrun] at hallows
    refine ⟨by rintro - ⟨⟩, hallows, fun depth => ?_⟩
    simpa [logAfter] using (hcode depth).trans (List.sublist_append_left code code')
  | exhausted =>
    rw [hrun] at hends
    refine ⟨fun he => absurd rfl (hends he), trivial, fun depth => ?_⟩
    simpa [logAfter] using (hcode depth).trans (List.sublist_append_left code code')

end Rules

/-! ### Steps of expressions -/

section Steps

variable {enough : Prop} {code : List Ref} {fuel : Nat} {ctx : Context} {v : Value} {P : Value → Prop}

theorem heldAll_context (hctx : w.custody.HeldContext ctx) : ∀ x ∈ [ctx.this, ctx.scope, ctx.last], w.held x :=
  Discipline.heldAll_context (D := w.discipline) (i := ()) hctx

end Steps

end Ward

/-! ## Runs of code -/

section Runs

variable {s : Store} {roots : List Value} {place : Place} {code : List Ref} {data : List Value}
variable {enough : Prop} {fuel : Nat} {engine r : Ref} {ctx : Context} {items : List Value}
  {flavor : Flavor}

namespace Ward

section Kept

variable {t : Store} {v : Value}

end Kept

end Ward

/-! ### One kind of place after the other -/

namespace Place

end Place

end Runs

end ListScript
