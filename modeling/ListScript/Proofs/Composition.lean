import ListScript.Proofs.Growth
import ListScript.Proofs.Tasks

/-!
# Properties that pass from parts to the whole

Between the tasks that it starts, a run is a sequence of steps that look at the objects, make new ones and let those that
are there grow. A property that such steps have, and that passes from the parts of a sequence to the whole, is one of
everything that the functions and methods of the host do by themselves (`Effect.Compositional`). Only the methods of
lists take anything away: for them the property has to be shown of the new elements of a list.

The same goes for effects with the tasks that they start (`Logged.Compositional`): if a property passes from parts to the
whole, then every task has it as soon as the tasks that it may start have it.
-/

namespace ListScript

open Effect

/-! ## Effects -/

/-- A property of effects that steps have, if they let objects grow, and that passes from the parts of an effect to the
whole. -/
structure Effect.Compositional (P : (α : Type) → Effect α → Prop) : Prop where
  pure {α : Type} (a : α) : P α (Pure.pure a)
  raise {α : Type} (e : Raised) : P α (Effect.raise e)
  exhaust {α : Type} : P α Effect.exhaust
  store : P Store Effect.store
  ask {α : Type} (f : Store → Except Raised α) : P α (Effect.ask f)
  element? (list : Value) (i : Nat) : P (Option Value) (Effect.element? list i)
  extend {α : Type} {f : Store → α × Store} (h : ∀ s : Store, s.Expands (fun _ => True) (f s).2) : P α (Effect.extend f)
  change {f : Store → Except Raised Store} (h : ∀ s s' : Store, f s = .ok s' → s.Expands (fun _ => True) s') :
    P Unit (Effect.change f)
  attempt {α : Type} {act : Effect α} (h : P α act) : P (Except Raised α) (Effect.attempt act)
  bind {α β : Type} {act : Effect α} {f : α → Effect β} (h : P α act) (hf : ∀ a, P β (f a)) : P β (act >>= f)

namespace Effect.Compositional

variable {P : (α : Type) → Effect α → Prop} {α : Type}

/-- The property that all effects have. -/
theorem trivial : Compositional fun _ _ => True := by constructor <;> intros <;> exact True.intro

theorem of_ite {c : Prop} [Decidable c] {act other : Effect α} (h : P α act) (h' : P α other) :
    P α (if c then act else other) := by
  split
  · exact h
  · exact h'

section Steps

variable (hP : Compositional P)

include hP

theorem ofExcept (x : Except Raised α) : P α (Effect.ofExcept x) := by
  cases x with
  | ok a => exact hP.pure a
  | error e => exact hP.raise e

/-! ### Functions of the host -/

theorem fault (kind : Kind) (text : String) : P α (Host.fault kind text) := hP.raise _

theorem newList (items : List Value) : P Value (Host.newList items) := hP.extend fun s => s.expands_alloc _

theorem integerArg (name : String) (v : Value) : P Int (Host.integerArg name v) := by
  cases v with
  | int n => exact hP.pure n
  | _ => exact hP.fault _ _

theorem needCallable (name : String) (f : Value) : P Unit (Host.needCallable name f) :=
  hP.bind hP.store fun _ => of_ite (hP.pure ()) (hP.fault _ _)

theorem needList (name : String) (v : Value) : P Unit (Host.needList name v) :=
  hP.bind hP.store fun _ => of_ite (hP.pure ()) (hP.fault _ _)

theorem sum (name : String) (args : List Value) : P Int (Host.sum name args) := by
  induction args with
  | nil => exact hP.pure 0
  | cons v rest ih => exact hP.bind (hP.integerArg name v) fun n => hP.bind ih fun m => hP.pure _

theorem joined (args : List Value) : P String (Host.joined args) := by
  induction args with
  | nil => exact hP.pure ""
  | cons v rest ih =>
    cases v with
    | str t flavor => exact hP.bind ih fun _ => hP.pure _
    | _ => exact hP.fault _ _

/-- The function of the host that changes a list makes it longer. -/
theorem pushAll (name : String) (list : Value) (items : List Value) : P Unit (Host.pushAll name list items) := by
  refine hP.bind (hP.needList name list) fun _ => hP.change fun s s' h => ?_
  split at h <;> cases h
  · rename_i r old flavor hc
    exact Store.expands_set hc (Cell.expands_list fun _ => by simp)
  · exact .refl _

theorem failAs (kind : Kind) (text : String) : P Value (Host.failAs kind text) := by
  refine hP.bind ?_ fun stack => hP.raise _
  unfold Host.ownStack
  split
  · exact hP.bind (hP.newList _) fun _ => hP.bind (hP.newList _) fun _ => hP.pure _
  · exact hP.pure _
  · exact hP.pure _

theorem failWith (kind text : Value) : P Value (Host.failWith kind text) := by
  have hkind : P Kind (Host.kindOf kind) := by
    refine hP.bind hP.store fun s => of_ite (hP.pure _) (hP.bind (hP.ask _) fun _ => ?_)
    split
    · exact hP.pure _
    · exact hP.bind (hP.ask _) fun _ => hP.raise _
  have htext : P String (Host.errorText text) := by
    unfold Host.errorText
    split
    · exact hP.pure _
    · exact hP.pure _
    · exact hP.ask _
  exact hP.bind hkind fun _ => hP.bind htext fun _ => hP.failAs _ _

theorem report (e : Raised) : P Value (Host.report e) := by
  have hdict : ∀ entries, P Value (Effect.extend (·.allocDict entries)) := fun entries =>
    hP.extend fun s => s.expands_alloc _
  unfold Host.report
  cases e.stack with
  | none => exact hP.bind (hP.pure _) fun _ => hdict _
  | some frames => exact hP.bind (hP.newList _) fun _ => hdict _

theorem needReceiver (name : String) (this : Option Value) : P Value (Host.needReceiver name this) := by
  cases this with
  | none => exact hP.raise _
  | some v => exact hP.pure v

theorem add (m : Host.Memory) (values : List Value) : P Host.Memory (m.add values) :=
  hP.bind hP.store fun _ => hP.pure _

theorem ofCall (own args : List Value) (this : Option Value) : P Host.Memory (Host.Memory.ofCall own args this) :=
  hP.bind (hP.add _ _) fun _ => hP.bind (hP.add _ _) fun _ => hP.add _ _

theorem rethrow (m : Host.Memory) (i : Nat) : P Value (m.rethrow i) := by
  unfold Host.Memory.rethrow
  split
  · exact hP.raise _
  · exact hP.fault _ _

theorem ownContext (v : Value) : P Context (Host.ownContext v) :=
  hP.bind (hP.extend fun _ => Store.expands_allocEmptyScope .null) fun _ => hP.pure _

theorem tried (caught : Bool) {act : Effect α} (h : P α act) : P (Except Raised α) (Host.tried caught act) :=
  of_ite (hP.attempt h) (hP.bind h fun _ => hP.pure _)

/-! ### Methods of the host -/

theorem needCount (wording : Nat → String) (args : List Value) (n : Nat) : P Unit (Host.needCount wording args n) :=
  of_ite (hP.pure ()) (hP.fault _ _)

theorem positionArg (v : Value) : P Int (Host.positionArg v) := by
  cases v with
  | int n => exact of_ite (hP.pure n) (hP.raise _)
  | bool b => exact hP.pure _
  | _ => exact hP.bind hP.store fun _ => hP.fault _ _

/-- A method of a list has the property if the setting of elements has it. -/
theorem performOnList {self : Value} {m : Host.Method}
    (hset : m ∈ Host.Method.ofLists → ∀ items, P Unit (Host.setItems self items)) (args : List Value) :
    P Value (Host.performOnList self m args) := by
  refine hP.bind hP.store fun s => hP.bind hP.store fun s' => ?_
  have hnull : P Value (Pure.pure Value.null) := hP.pure _
  dsimp only
  cases m with
  | append | reverse | clear =>
    exact hP.bind (hP.needCount _ _ _) fun _ => hP.bind (hset (by decide) _) fun _ => hnull
  | pop =>
    have hposition : P Int (Host.popPosition args) := of_ite (hP.pure _) (hP.positionArg _)
    refine of_ite (hP.fault _ _) (hP.bind hposition fun n => of_ite (hP.raise _) (of_ite (hP.fault _ _) ?_))
    exact hP.bind (hset (by decide) _) fun _ => hP.pure _
  | insert =>
    refine hP.bind (hP.needCount _ _ _) fun _ => hP.bind (hP.positionArg _) fun n => ?_
    exact hP.bind (hset (by decide) _) fun _ => hnull
  | extend =>
    refine hP.bind (hP.needCount _ _ _) fun _ => hP.bind (hP.ask _) fun more => ?_
    exact hP.bind (hset (by decide) _) fun _ => hP.bind (hP.ofExcept _) fun _ => hnull
  | copy => exact hP.bind (hP.needCount _ _ _) fun _ => hP.newList _
  | _ => exact hnull

theorem performOnText (self : Value) (text : String) (m : Host.Method) (args : List Value) :
    P Value (Host.performOnText self text m args) := by
  have hbound : ∀ v, P (Option Int) (Host.boundArg v) := by
    intro v
    cases v with
    | null | int | bool => exact hP.pure _
    | _ => exact hP.fault _ _
  have hone : ∀ piece items, P Bool (Host.startsWithOne piece items) := by
    intro piece items
    induction items with
    | nil => exact hP.pure _
    | cons v rest ih =>
      cases v with
      | str t flavor => exact of_ite (hP.pure _) ih
      | _ => exact hP.bind hP.store fun _ => hP.fault _ _
  refine hP.bind hP.store fun s => ?_
  cases m with
  | upper | lower => exact hP.bind (hP.needCount _ _ _) fun _ => hP.pure _
  | startsWith =>
    refine of_ite (hP.fault _ _) (of_ite (hP.fault _ _) ?_)
    refine hP.bind (hbound _) fun start => hP.bind (hbound _) fun stop => hP.bind hP.store fun s => ?_
    split
    · exact hP.pure _
    · exact hP.bind (hone _ _) fun _ => hP.pure _
    · exact hP.bind hP.store fun _ => hP.fault _ _
  | _ => exact hP.pure _

theorem futureState (self : Value) : P (Option Value × List Value) (Host.futureState self) := by
  refine hP.bind hP.store fun s => ?_
  split <;> exact hP.pure _

theorem setFuture (self : Value) (result : Option Value) (waiting : List Value) :
    P Unit (Host.setFuture self result waiting) := by
  refine hP.change fun s s' h => ?_
  split at h <;> cases h
  · rename_i hc
    exact Store.expands_set hc True.intro
  · exact .refl _

theorem changeHitPoints (self : Value) (c : Host.Change) (amount : Int) :
    P Value (Host.changeHitPoints self c amount) := by
  have happly : ∀ v, P Value (c.apply v amount) := by
    intro v
    cases v with
    | int | bool => exact hP.pure _
    | float d =>
      unfold Host.Change.apply
      dsimp only
      split
      · exact hP.raise _
      · split
        · exact hP.pure _
        · have hnan : P Double (Effect.extend (·.allocNan)) := hP.extend fun s => s.expands_alloc _
          exact hP.bind hnan fun d => hP.pure _
    | _ => exact hP.bind hP.store fun _ => hP.fault _ _
  refine hP.bind hP.store fun s => hP.bind (happly _) fun result => ?_
  refine hP.bind (hP.change fun s s' h => ?_) fun _ => hP.pure _
  split at h
  · exact Store.expands_setAttribute h
  · cases h

theorem performOnHero (self : Value) (m : Host.Method) (args : List Value) (this : Option Value) :
    P Value (Host.performOnHero self m args this) := by
  refine hP.bind hP.store fun s => ?_
  cases m with
  | takeDamage | heal => exact hP.bind (hP.integerArg _ _) fun n => hP.changeHitPoints _ _ _
  | whoami => exact hP.needReceiver _ _
  | boom => exact hP.bind (hP.ask _) fun _ => hP.fault _ _
  | whisper => exact hP.bind (hP.needReceiver _ _) fun _ => hP.bind (hP.newList _) fun _ => hP.newList _
  | _ => exact hP.pure _

/-! ### What stands in for parts of the interpreter -/

theorem unfollowed (f : Value) : P α (ListScript.unfollowed f) :=
  hP.bind hP.store fun _ => of_ite hP.exhaust (hP.raise _)

theorem standIn (m : Host.Method) (f : Value) : P Ref (ListScript.standIn m f) := by
  refine hP.bind hP.store fun s => ?_
  split
  · split
    · exact of_ite (hP.pure _) hP.exhaust
    · exact hP.exhaust
  · exact hP.unfollowed f

theorem evaluatorOf (engine : Ref) : P Ref (ListScript.evaluatorOf engine) := by
  refine hP.bind hP.store fun s => ?_
  split
  · exact hP.pure _
  · exact hP.standIn _ _

theorem callerOf (engine : Ref) : P Ref (ListScript.callerOf engine) := by
  refine hP.bind hP.store fun s => ?_
  split
  · exact hP.pure _
  · exact of_ite (hP.raise _) (hP.standIn _ _)

theorem engineFor (v : Value) : P Ref (ListScript.engineFor v) := by
  refine hP.bind hP.store fun s => ?_
  split
  · exact hP.pure _
  · exact hP.raise _
  · exact hP.exhaust

theorem contextFrom (v : Value) : P Context (ListScript.contextFrom v) := by
  refine hP.bind hP.store fun s => ?_
  split
  · exact hP.unfollowed _
  · exact hP.pure _
  · exact hP.raise _

/-! ### Functions made by scripts -/

theorem openClosure (f : Closure) (args : List Value) : P (Ref × Context) (ListScript.openClosure f args) := by
  refine hP.bind (hP.ask _) fun outer => hP.bind (hP.extend fun _ => Store.expands_allocEmptyScope outer) fun scope => ?_
  refine hP.bind (hP.ask _) fun names => hP.bind (hP.change fun _ _ h => Store.expands_bindParameters h) fun _ => ?_
  refine hP.bind (hP.ofExcept _) fun _ => hP.bind (hP.engineFor _) fun engine => hP.bind (hP.contextFrom _) fun ctx => ?_
  exact hP.pure _

end Steps

end Effect.Compositional

/-! ## Effects with the tasks that they start -/

/-- A property of effects with the tasks that they start that passes from parts to the whole. An effect that starts no
task has it if it has the property `Q`, and a task has it if it is one of `T`. -/
structure Logged.Compositional (Q : (α : Type) → Effect α → Prop) (T : Task → Prop) (P : (α : Type) → Logged α → Prop) :
    Prop where
  effects : Effect.Compositional Q
  lift {α : Type} {act : Effect α} (h : Q α act) : P α (Logged.lift act)
  start {t : Task} (fuel : Nat) (h : T t) : P Value (Logged.start fuel t)
  watch {t : Task} (fuel : Nat) (h : T t) : P (Except Raised Value) (Logged.watch fuel t)
  bind {α β : Type} {p : Logged α} {f : α → Logged β} (h : P α p) (hf : ∀ a, P β (f a)) : P β (p >>= f)

namespace Logged.Compositional

variable {Q : (α : Type) → Effect α → Prop} {T : Task → Prop} {P : (α : Type) → Logged α → Prop} {α β : Type}

theorem of_ite {c : Prop} [Decidable c] {p q : Logged α} (h : P α p) (h' : P α q) : P α (if c then p else q) := by
  split
  · exact h
  · exact h'

section Parts

variable (hP : Compositional Q T P)

include hP

theorem pure (a : α) : P α (Pure.pure a) := hP.lift (hP.effects.pure a)

/-- An effect that starts no task, and what comes after it. -/
theorem keep {act : Effect α} {f : α → Logged β} (h : Q α act) (hf : ∀ a, P β (f a)) : P β (Logged.lift act >>= f) :=
  hP.bind (hP.lift h) hf

theorem exhaust : P α (Logged.lift Effect.exhaust) := hP.lift hP.effects.exhaust

/-! ### Scripts -/

section Expressions

variable {fuel : Nat} {engine : Ref} {ctx : Context} (hscript : ∀ v ctx, T (.script engine v ctx))

include hscript

theorem source (v : Value) : P Value (Logged.source fuel engine ctx v) :=
  hP.keep hP.effects.store fun _ => of_ite (hP.pure _) (hP.start _ (hscript v ctx))

theorem target (v : Value) : P Value (Logged.target fuel engine ctx v) :=
  of_ite (hP.pure _) (hP.start _ (hscript v ctx))

theorem arguments (list : Value) (n : Nat) : P (List Value) (Logged.arguments engine ctx fuel n list) := by
  induction fuel generalizing n with
  | zero => exact hP.exhaust
  | succ fuel ih =>
    refine hP.keep (hP.effects.element? _ _) fun found => ?_
    cases found with
    | none => exact hP.pure _
    | some v => exact hP.bind (hP.source hscript v) fun _ => hP.bind (ih (n + 1)) fun _ => hP.pure _

theorem givenArguments (args : Option Value) : P (List Value) (Logged.givenArguments fuel engine ctx args) := by
  cases args with
  | none => exact hP.pure _
  | some list => exact hP.arguments hscript list 0

variable (hread : ∀ path ctx, T (.read path ctx))

include hread

theorem get (expression v : Value) : P Value (Logged.get fuel engine ctx expression v) := by
  refine hP.bind (hP.target hscript v) fun text => of_ite ?_ (hP.lift (hP.effects.ask _))
  exact hP.keep (hP.effects.ask _) fun path => hP.start _ (hread path ctx)

theorem callee (expression v : Value) : P Callee (Logged.callee fuel engine ctx expression v) := by
  refine hP.bind (hP.target hscript v) fun resolved => of_ite ?_ ?_
  · refine hP.keep (hP.effects.ask _) fun path => hP.bind (hP.start _ (hread path ctx)) fun function => ?_
    cases path.parent with
    | none => exact hP.pure _
    | some parent => exact hP.bind (hP.start _ (hread parent ctx)) fun _ => hP.pure _
  · refine hP.keep hP.effects.store fun s => of_ite ?_ (hP.lift (hP.effects.ask _))
    exact hP.keep (hP.effects.ask _) fun _ => hP.pure _

theorem command (hwrite : ∀ path v ctx, T (.write path v ctx)) (hinvoke : ∀ found values, T (.invoke engine found values))
    (v : Value) (c : Command) : P Value (Logged.command fuel engine ctx v c) := by
  cases c with
  | call target args =>
    refine hP.bind (hP.callee hscript hread v target) fun found => hP.bind (hP.givenArguments hscript args) fun values => ?_
    exact hP.keep hP.effects.store fun s => of_ite (hP.start _ (hinvoke found values)) (hP.lift (hP.effects.ask _))
  | get target => exact hP.get hscript hread v target
  | lambda params body => exact hP.lift (hP.effects.extend fun _ => Store.expands_allocClosure params body ctx engine)
  | set receiver w =>
    refine hP.bind (hP.source hscript w) fun w => hP.keep (hP.effects.ask _) fun path => ?_
    exact hP.start _ (hwrite path w ctx)
  | value payload => exact hP.keep hP.effects.store fun s => hP.pure _

/-- An expression writes a line before it does what its command does. -/
theorem expression (htrace : ∀ line, Q Unit (trace line)) (hwrite : ∀ path v ctx, T (.write path v ctx))
    (hinvoke : ∀ found values, T (.invoke engine found values)) (v : Value) :
    P Value (Logged.expression fuel engine ctx v) := by
  refine hP.keep (hP.effects.ask _) fun c => hP.keep hP.effects.store fun s => hP.keep (htrace _) fun _ => ?_
  have hcommand : P Value (Logged.command fuel engine ctx v c) := hP.command hscript hread hwrite hinvoke v c
  cases c <;> exact hcommand

end Expressions

theorem sequel {engine : Ref} (h : ∀ v ctx, T (.expression engine v ctx)) (fuel : Nat) (list : Value) (n : Nat)
    (ctx : Context) (last : Value) : P Value (Logged.sequel engine fuel list n ctx last) := by
  induction fuel generalizing n ctx last with
  | zero => exact hP.exhaust
  | succ fuel ih =>
    refine hP.keep (hP.effects.element? _ _) fun found => ?_
    cases found with
    | none => exact hP.pure _
    | some w => exact hP.bind (hP.start _ (h w ctx)) fun w => ih (n + 1) _ w

theorem form {engine : Ref} (h : ∀ v ctx, T (.expression engine v ctx)) (fuel : Nat) (ctx : Context) (v : Value) :
    P Value (Logged.form fuel engine ctx v) := by
  refine hP.keep (hP.effects.ask _) fun form => ?_
  cases form with
  | single w => exact hP.start _ (h w ctx)
  | sequence list => exact hP.sequel h fuel list 0 ctx .null

theorem script (h : ∀ engine v ctx, T (.expression engine v ctx)) (fuel : Nat) (engine : Ref) (ctx : Context) (v : Value) :
    P Value (Logged.script engine ctx fuel v) := by
  cases fuel with
  | zero => exact hP.exhaust
  | succ fuel => exact hP.keep (hP.effects.evaluatorOf engine) fun evaluator => hP.form (h evaluator) fuel ctx v

theorem invoke (h : ∀ engine f args receiver name, T (.call engine f args receiver name)) (fuel : Nat) (engine : Ref)
    (found : Callee) (values : List Value) : P Value (Logged.invoke fuel engine found values) :=
  hP.keep (hP.effects.newList values) fun _ => hP.keep (hP.effects.callerOf engine) fun caller =>
    hP.start _ (h caller _ _ _ _)

/-! ### Functions and methods -/

theorem closure (hscript : ∀ engine v ctx, T (.script engine v ctx)) (fuel : Nat) (f : Closure) (args : List Value) :
    P Value (Logged.closure fuel f args) :=
  hP.keep (hP.effects.openClosure f args) fun _ => hP.start _ (hscript _ _ _)

section Functions

variable {fuel : Nat} (h : ∀ g args, T (.apply g args none))

include h

theorem mapFrom (f list : Value) (n i : Nat) (done : List Value) :
    P (List Value) (Logged.mapFrom fuel f list n i done) := by
  induction n generalizing i done with
  | zero => exact hP.exhaust
  | succ n ih =>
    refine hP.keep (hP.effects.element? _ _) fun found => ?_
    cases found with
    | none => exact hP.pure _
    | some x => exact hP.bind (hP.start _ (h f [x])) fun y => ih (i + 1) (y :: done)

theorem foldFrom (f list : Value) (n i : Nat) (acc : Value) : P Value (Logged.foldFrom fuel f list n i acc) := by
  induction n generalizing i acc with
  | zero => exact hP.exhaust
  | succ n ih =>
    refine hP.keep (hP.effects.element? _ _) fun found => ?_
    cases found with
    | none => exact hP.pure _
    | some x => exact hP.bind (hP.start _ (h f [acc, x])) fun acc => ih (i + 1) acc

theorem timesFrom (f : Value) (n : Nat) (i : Int) (done : List Value) :
    P (List Value) (Logged.timesFrom fuel f n i done) := by
  induction n generalizing i done with
  | zero => exact hP.pure _
  | succ n ih => exact hP.bind (hP.start _ (h f [.int i])) fun y => ih (i + 1) (y :: done)

theorem notifyAll (self : Value) (waiting : List Value) : P Unit (Logged.notifyAll fuel self waiting) := by
  induction waiting with
  | nil => exact hP.pure _
  | cons f rest ih => exact hP.bind (hP.start _ (h f [self])) fun _ => ih

theorem guardedCall (name : String) (f : Value) (args : List Value) :
    P (Except Raised Value) (Logged.guardedCall fuel name f args) := by
  refine hP.keep (hP.effects.attempt (hP.effects.needCallable name f)) fun checked => ?_
  cases checked with
  | ok _ => exact hP.watch _ (h f args)
  | error e => exact hP.pure _

omit h in
theorem tried {t : Task} (caught : Bool) (ht : T t) : P (Except Raised Value) (Logged.tried fuel caught t) :=
  of_ite (hP.watch _ ht) (hP.bind (hP.start _ ht) fun _ => hP.pure _)

section Codes

variable (hread : ∀ path ctx, T (.read path ctx)) (hwrite : ∀ path v ctx, T (.write path v ctx))

include hread hwrite

theorem act (got : List Value) (caught : Bool) (a : Host.Act Host.Code) :
    P (Except Raised (List Value)) (Logged.act fuel got caught a) := by
  have hQ := hP.effects
  have hnew : ∀ c, Q Value (Host.newCell c) := fun c => hQ.extend fun s => s.expands_alloc c
  have hown : ∀ {act : Effect (List Value)}, Q (List Value) act →
      P (Except Raised (List Value)) (Logged.lift (Host.tried caught act)) := fun h => hP.lift (hQ.tried caught h)
  cases a with
  | makeList items => exact hown (hQ.bind (hQ.newList _) fun _ => hQ.pure _)
  | makeDict items =>
    exact hown (hQ.bind (hQ.ask _) fun _ => hQ.bind (hQ.extend fun s => s.expands_alloc _) fun _ => hQ.pure _)
  | makeFunction f => exact hown (hQ.bind (hnew _) fun _ => hQ.pure _)
  | makeObject label code methods => exact hown (hQ.bind (hnew _) fun _ => hQ.pure _)
  | iterate v => exact hown (hQ.ask fun s => s.elements (v.value got))
  | entries v => exact hown (hQ.bind (hQ.ask _) fun _ => hQ.pure _)
  | print v => exact hown (hQ.bind (hQ.ask _) fun _ => hQ.pure _)
  | read v segments =>
    exact hP.keep (hQ.ownContext _) fun ctx => hP.bind (hP.tried caught (hread _ ctx)) fun _ => hP.pure _
  | write v segments w =>
    exact hP.keep (hQ.ownContext _) fun ctx => hP.bind (hP.tried caught (hwrite _ _ ctx)) fun _ => hP.pure _
  | call f args => exact hP.bind (hP.tried caught (h _ _)) fun _ => hP.pure _

theorem playFrom (code : Host.Code) (n : Nat) (m : Host.Memory) : P Value (Logged.playFrom fuel code n m) := by
  induction n generalizing m with
  | zero => exact hP.exhaust
  | succ n ih =>
    unfold Logged.playFrom
    split
    · exact hP.pure _
    · exact hP.lift (hP.effects.failAs _ _)
    · exact hP.lift (hP.effects.rethrow _ _)
    · refine hP.bind (hP.act h hread hwrite _ _ _) fun outcome => ?_
      cases outcome with
      | ok values => exact hP.keep (hP.effects.add _ _) fun m => ih m
      | error e => exact ih _

/-- A function that is given by its code goes on with calls, reads and writes. -/
theorem play (code : Host.Code) (own args : List Value) (this : Option Value) :
    P Value (Logged.play fuel code own args this) :=
  hP.keep (hP.effects.ofCall own args this) fun m => hP.playFrom h hread hwrite code fuel m

theorem function (f : Host.Function) (args : List Value) (this : Option Value) :
    P Value (Logged.function fuel f args this) := by
  have hQ := hP.effects
  cases f with
  | choose => exact hP.keep hQ.store fun s => of_ite (hP.start _ (h _ [])) (hP.pure _)
  | apply => exact hP.keep (hQ.needCallable _ _) fun _ => hP.start _ (h _ _)
  | mapList =>
    refine hP.keep (hQ.needCallable _ _) fun _ => hP.keep (hQ.needList _ _) fun _ => ?_
    exact hP.bind (hP.mapFrom h _ _ fuel 0 []) fun _ => hP.lift (hQ.newList _)
  | fold =>
    refine hP.keep (hQ.needCallable _ _) fun _ => hP.keep (hQ.needList _ _) fun _ => ?_
    exact hP.foldFrom h _ _ fuel 0 _
  | times =>
    refine hP.keep (hQ.integerArg _ _) fun n => hP.keep (hQ.needCallable _ _) fun _ => ?_
    exact hP.bind (hP.timesFrom h _ n.toNat 0 []) fun _ => hP.lift (hQ.newList _)
  | guarded =>
    refine hP.bind (hP.guardedCall h _ _ _) fun result => ?_
    cases result with
    | ok v => exact hP.pure _
    | error e => exact hP.lift (hQ.report e)
  | wrap =>
    refine hP.bind (hP.guardedCall h _ _ _) fun result => ?_
    cases result with
    | ok v => exact hP.pure _
    | error e => exact hP.lift (hQ.fault _ _)
  -- no other function calls back
  | identity | firstParameter | count | optionalReceiver | unmarked => exact hP.lift (hQ.pure _)
  | makeList | anyKeyword => exact hP.lift (hQ.newList _)
  | add => exact hP.lift (hQ.bind (hQ.sum _ _) fun _ => hQ.pure _)
  | subtract | multiply | lessThan =>
    exact hP.lift (hQ.bind (hQ.integerArg _ _) fun _ => hQ.bind (hQ.integerArg _ _) fun _ => hQ.pure _)
  | equals | same => exact hP.lift (hQ.bind hQ.store fun _ => hQ.pure _)
  | concat => exact hP.lift (hQ.bind (hQ.joined _) fun _ => hQ.pure _)
  | makeDict => exact hP.lift (hQ.bind (hQ.ask _) fun _ => hQ.extend fun s => s.expands_alloc _)
  | push => exact hP.lift (hQ.bind (hQ.pushAll _ _ _) fun _ => hQ.pure _)
  | pushThenFail => exact hP.lift (hQ.bind (hQ.pushAll _ _ _) fun _ => hQ.fault _ _)
  | fail => exact hP.lift (hQ.failWith _ _)
  | display => exact hP.lift (hQ.bind (hQ.ask _) fun _ => hQ.pure _)
  | receiver => exact hP.lift (hQ.needReceiver _ _)
  | receiverAndArgs =>
    exact hP.lift (hQ.bind (hQ.needReceiver _ _) fun _ => hQ.bind (hQ.newList _) fun _ => hQ.newList _)
  | receiverGet =>
    refine hP.lift (hQ.bind (hQ.needReceiver _ _) fun owner => hQ.bind hQ.store fun s => ?_)
    exact Effect.Compositional.of_ite (hQ.bind (hQ.ask _) fun _ => hQ.pure _) (hQ.pure _)
  | receiverSet =>
    refine hP.lift (hQ.bind (hQ.needReceiver _ _) fun owner => hQ.bind hQ.store fun s => ?_)
    refine Effect.Compositional.of_ite (hQ.bind (hQ.change fun _ _ hset => ?_) fun _ => hQ.pure _) (hQ.fault _ _)
    exact Store.expands_setEntry hset
  | increment => exact hP.lift (hQ.bind (hQ.integerArg _ _) fun _ => hQ.pure _)
  | other code => exact hP.play h hread hwrite code [] args this

/-- What a callable object does. -/
theorem object (self : Value) (cls : Host.Class) (args : List Value) (this : Option Value) :
    P Value (Logged.object fuel self cls args this) := by
  have hQ := hP.effects
  cases cls with
  | callable =>
    cases this with
    | none => exact hP.lift (hQ.newList _)
    | some owner => exact hP.lift (hQ.raise _)
  | callableThis =>
    cases this with
    | none => exact hP.lift (hQ.raise _)
    | some owner => exact hP.lift (hQ.bind (hQ.newList _) fun _ => hQ.newList _)
  | other label call methods =>
    cases call with
    | none => exact hP.lift (hQ.raise _)
    | some code => exact hP.play h hread hwrite code [self] args this
  | _ => exact hP.lift (hQ.raise _)

end Codes

theorem onFuture (self : Value) (m : Host.Method) (args : List Value) : P Value (Logged.onFuture fuel self m args) := by
  have hnull : P Value (Pure.pure Value.null) := hP.pure _
  refine hP.keep (hP.effects.futureState self) fun state => ?_
  obtain ⟨result, waiting⟩ := state
  cases m with
  | addDoneCallback =>
    cases result with
    | none => exact hP.keep (hP.effects.setFuture _ _ _) fun _ => hnull
    | some v => exact hP.bind (hP.start _ (h _ [self])) fun _ => hnull
  | setResult =>
    cases result with
    | none => exact hP.keep (hP.effects.setFuture _ _ _) fun _ => hP.bind (hP.notifyAll h self waiting) fun _ => hnull
    | some v => exact hP.lift (hP.effects.fault _ _)
  | result =>
    cases result with
    | none => exact hP.lift (hP.effects.fault _ _)
    | some v => exact hP.pure v
  | _ => cases result <;> exact hnull

omit h in
/-- A method of an evaluator runs a script or makes a call. -/
theorem onEngine {engine : Ref} (hexpression : ∀ v ctx, T (.expression engine v ctx))
    (hcall : ∀ f args receiver name, T (.call engine f args receiver name)) (m : Host.Method) (args : List Value) :
    P Value (Logged.onEngine fuel engine m args) := by
  unfold Logged.onEngine
  split
  · exact hP.keep (hP.effects.contextFrom _) fun ctx => hP.form hexpression fuel ctx _
  · exact hP.start _ (hcall _ _ _ _)
  · exact hP.start _ (hcall _ _ _ _)
  · exact hP.start _ (hcall _ _ _ _)
  · exact hP.lift (hP.effects.fault _ _)

/-- A method of a list has the property if the setting of elements has it. -/
theorem method (hread : ∀ path ctx, T (.read path ctx)) (hwrite : ∀ path v ctx, T (.write path v ctx)) {self : Value}
    {m : Host.Method} (hset : m ∈ Host.Method.ofLists → ∀ items, Q Unit (Host.setItems self items)) (args : List Value)
    (this : Option Value) : P Value (Logged.method fuel self m args this) := by
  refine hP.keep hP.effects.store fun s => ?_
  split
  · exact hP.lift (hP.effects.performOnText _ _ m args)
  · exact hP.lift (hP.effects.performOnList hset args)
  · exact hP.onFuture h _ m args
  · unfold Logged.onObject
    split
    · exact hP.play h hread hwrite _ _ args this
    · exact hP.lift (hP.effects.performOnHero _ m args this)
  · exact hP.lift (hP.effects.performOnHero _ m args this)

end Functions

end Parts

end Logged.Compositional

end ListScript
