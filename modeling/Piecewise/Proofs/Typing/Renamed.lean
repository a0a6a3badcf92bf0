import Piecewise.Proofs.Program.Renaming
import Piecewise.Proofs.Ty.Order
import Piecewise.Proofs.Typing.Resolution

/-!
# Checking with a parameter renamed

The checker does in the renamed program what it does in the program. It finds the same types, but
for the names in the types of functions, which no comparison looks at. The two runs stay side by
side: always the same functions have their type already.
-/

namespace Piecewise

namespace Ty

theorem joinMany_nameless (ts : List Ty) :
    joinMany (ts.map nameless) = (joinMany ts).map nameless := by
  cases ts with
  | nil => rfl
  | cons a ts =>
    induction ts generalizing a with
    | nil => rfl
    | cons b ts ih =>
      rw [List.map_cons, List.map_cons, joinMany_cons_cons, joinMany_cons_cons, join_nameless]
      cases a.join b with
      | none => rfl
      | some c => exact ih c

end Ty

namespace Typing

variable {r : Renaming} {p : Program} {d : Declaration}

def Meaning.renamed (r : Renaming) : Meaning → Meaning
  | parameter type => parameter type
  | function d => function (r.declaration d)

theorem not_mem_of_lookup_function {name : String} {f : Declaration}
    (hlookup : (environment p d).lookup name = some (.function f)) : name ∉ d.parameterNames := by
  intro hname
  obtain ⟨type, htype⟩ := mem_parameterNames_iff (p := p).mp hname
  rw [hlookup] at htype
  cases htype

/-- What means something in a function is declared, so it is not the new name. -/
theorem ne_new_of_lookup (h : r.Site p d) {name : String} {meaning : Meaning}
    (hlookup : (environment p d).lookup name = some meaning) : name ≠ r.new := by
  rintro rfl
  cases meaning with
  | parameter type =>
    have hname : r.new ∈ d.parameterNames := mem_parameterNames_iff.mpr ⟨type, hlookup⟩
    exact h.fits.undeclared.2 d h.mem hname
  | function f =>
    obtain ⟨hf, hname⟩ := mem_of_lookup hlookup
    exact h.fits.undeclared.1 (hname ▸ List.mem_map_of_mem hf)

theorem parameter?_renamed (h : r.Site p d) {name : String} (hname : name ≠ r.new) :
    (environment (r.program p) (r.declaration d)).parameter? (r.inside d.name name) =
      (environment p d).parameter? name := by
  have hinputs : (r.declaration d).inputs =
      d.inputs.map fun input => { input with name := r.inside d.name input.name } := by
    simp [Declaration.inputs, Renaming.declaration]
  have hdeclared : ∀ input ∈ d.inputs, input.name ≠ r.new := by
    intro input hinput heq
    obtain ⟨q, hq, rfl⟩ := List.mem_map.mp hinput
    exact h.fits.undeclared.2 d h.mem (heq ▸ List.mem_map_of_mem hq)
  show ((r.declaration d).inputs.find? _).map Parameter.type = (d.inputs.find? _).map _
  rw [hinputs, Renaming.find?_renamed Parameter.name (fun _ => rfl) hdeclared hname,
    Option.map_map]
  rfl

/-- A name that means something in a function means the same in the renamed one. -/
theorem lookup_renamed (h : r.Site p d) {name : String} {meaning : Meaning}
    (hlookup : (environment p d).lookup name = some meaning) :
    (environment (r.program p) (r.declaration d)).lookup (r.inside d.name name) =
      some (meaning.renamed r) := by
  have hparameter := parameter?_renamed h (ne_new_of_lookup h hlookup)
  have hfunction := hlookup
  unfold Environment.lookup at hlookup ⊢
  rw [hparameter]
  cases hbound : (environment p d).parameter? name with
  | some type =>
    rw [hbound] at hlookup
    cases hlookup
    rfl
  | none =>
    rw [hbound] at hlookup
    obtain ⟨f, hf, rfl⟩ := Option.map_eq_some_iff.mp hlookup
    rw [h.inside_of_not_mem (not_mem_of_lookup_function hfunction)]
    show ((r.program p).find? name).map Meaning.function = _
    rw [Renaming.find?_program, show p.find? name = some f from hf]
    rfl

theorem nameless_signature (d : Declaration) :
    (r.declaration d).signature.nameless = d.signature.nameless := by
  simp [Declaration.signature, Declaration.inputs, Declaration.output, Renaming.declaration,
    Ty.nameless, Ty.namelessAll_eq_map]

/-- Symbols of one name in a program and in the renamed one. -/
structure Twins (r : Renaming) (p : Program) (a b : Symbol) : Prop where
  type : b.type.nameless = a.type.nameless
  declaration : b.declaration? = a.declaration?.map r.declaration
  mem : ∀ f, a.declaration? = some f → f ∈ p.declarations

theorem twins_symbol (h : r.Site p d) {name : String} {meaning : Meaning}
    (hlookup : (environment p d).lookup name = some meaning) (resolved : List String) :
    Twins r p (meaning.symbol resolved name)
      ((meaning.renamed r).symbol resolved (r.inside d.name name)) := by
  cases meaning with
  | parameter type => exact ⟨rfl, rfl, nofun⟩
  | function f =>
    rw [h.inside_of_not_mem (not_mem_of_lookup_function hlookup)]
    constructor
    · rw [Meaning.renamed, Meaning.type_symbol, Meaning.type_symbol]
      split
      · exact nameless_signature f
      · rfl
    · rw [Meaning.renamed, Meaning.declaration?_symbol, Meaning.declaration?_symbol]
      rfl
    · intro g hg
      rw [Meaning.declaration?_symbol] at hg
      cases hg
      exact (mem_of_lookup hlookup).1

/-- Two steps of which the second, in the renamed program, succeeds where the first does in the
program, with results as described. Before and after them the same functions have their type. -/
def Follows {α β : Type} (r : Renaming) (p : Program) (locals locals' : List Scope)
    (Q : α → β → Prop) (step : Check α) (twin : Check β) : Prop :=
  ∀ resolved s t a u, s.scopes = ⟨p.globals resolved, locals⟩ →
    t.scopes = ⟨(r.program p).globals resolved, locals'⟩ → step s = .ok a u →
    ∃ after b v, twin t = .ok b v ∧ Q a b ∧ u.scopes = ⟨p.globals after, locals⟩ ∧
      v.scopes = ⟨(r.program p).globals after, locals'⟩

namespace Follows

variable {α β γ δ : Type} {locals locals' : List Scope} {Q : α → β → Prop} {R : γ → δ → Prop}

theorem pure {a : α} {b : β} (h : Q a b) :
    Follows r p locals locals' Q (Pure.pure a) (Pure.pure b) := by
  intro resolved s t a' u hs ht hstep
  cases hstep
  exact ⟨resolved, b, t, rfl, h, hs, ht⟩

theorem bind {step : Check α} {twin : Check β} {next : α → Check γ} {next' : β → Check δ}
    (h : Follows r p locals locals' Q step twin)
    (k : ∀ a b, Q a b → Follows r p locals locals' R (next a) (next' b)) :
    Follows r p locals locals' R (step >>= next) (twin >>= next') := by
  intro resolved s t c w hs ht hstep
  obtain ⟨a, u, hfirst, hnext⟩ := bind_eq_ok_iff.mp hstep
  obtain ⟨middle, b, v, htwin, hab, hu, hv⟩ := h resolved s t a u hs ht hfirst
  obtain ⟨after, e, x, hnext', hce, hw, hx⟩ := k a b hab middle u v c w hu hv hnext
  exact ⟨after, e, x, bind_eq_ok_iff.mpr ⟨b, v, htwin, hnext'⟩, hce, hw, hx⟩

theorem throw {fault : Diagnostic} {twin : Check β} :
    Follows r p locals locals' Q (MonadExcept.throw fault) twin := by
  intro resolved s t a u _ _ hstep
  cases hstep

theorem lift {outcome : Except Diagnostic α} {outcome' : Except Diagnostic β}
    (h : ∀ a, outcome = .ok a → ∃ b, outcome' = .ok b ∧ Q a b) :
    Follows r p locals locals' Q (Typing.lift outcome) (Typing.lift outcome') := by
  cases outcome with
  | error fault => exact throw
  | ok a =>
    obtain ⟨b, rfl, hab⟩ := h a rfl
    exact pure hab

/-- A comparison on which both steps go on or fail. -/
theorem ensure {c c' : Prop} [Decidable c] [Decidable c'] (hc : c → c') {a : α} {b : β}
    (h : Q a b) {fault fault' : Diagnostic} :
    Follows r p locals locals' Q (if c then Pure.pure a else MonadExcept.throw fault)
      (if c' then Pure.pure b else MonadExcept.throw fault') := by
  split
  · rename_i hcompared
    rw [if_pos (hc hcompared)]
    exact pure h
  · exact throw

end Follows

/-- Types that are the same, names of parameters aside. -/
def SameTypes (a b : Ty) : Prop := b.nameless = a.nameless

namespace SameTypes

variable {a a' b b' : Ty}

theorem kind (h : SameTypes a a') : a'.kind = a.kind := by
  rw [← Ty.kind_nameless a', h, Ty.kind_nameless]

theorem sameKind (ha : SameTypes a a') (hb : SameTypes b b') : a'.sameKind b' = a.sameKind b := by
  unfold Ty.sameKind
  rw [ha.kind, hb.kind]

theorem agrees (ha : SameTypes a a') (hb : SameTypes b b') : a'.agrees b' = a.agrees b := by
  rw [← Ty.agrees_nameless a' b', ha, hb, Ty.agrees_nameless]

theorem isResolved (h : SameTypes a a') : a'.isResolved = a.isResolved := by
  rw [← Ty.isResolved_nameless a', h, Ty.isResolved_nameless]

theorem isNone_element? (h : SameTypes a a') : a'.element?.isNone = a.element?.isNone := by
  have helement : ∀ a : Ty, a.element?.isNone = a.nameless.element?.isNone := by
    intro a
    rw [Ty.element?_nameless, Option.isNone_map]
  rw [helement a', h, helement a]

/-- Where the results are the same, names of parameters aside, the second is there if the first
is. -/
theorem exists_of_map {joined joined' : Option Ty}
    (h : joined'.map Ty.nameless = joined.map Ty.nameless) {c : Ty} (hc : joined = some c) :
    ∃ c', joined' = some c' ∧ SameTypes c c' := by
  rw [hc] at h
  exact Option.map_eq_some_iff.mp h

/-- Two types whose places are taken by the same types have the same join. -/
theorem join (ha : SameTypes a a') (hb : SameTypes b b') {c : Ty} (h : a.join b = some c) :
    ∃ c', a'.join b' = some c' ∧ SameTypes c c' := by
  have hjoin := Ty.join_nameless a' b'
  rw [ha, hb, Ty.join_nameless] at hjoin
  exact exists_of_map hjoin.symm h

theorem joinLists (ha : SameTypes a a') (hb : SameTypes b b') {c : Ty}
    (h : a.joinLists b = some c) : ∃ c', a'.joinLists b' = some c' ∧ SameTypes c c' := by
  have hjoin := Ty.joinLists_nameless a' b'
  rw [ha, hb, Ty.joinLists_nameless] at hjoin
  exact exists_of_map hjoin.symm h

theorem joinAt (ha : SameTypes a a') (hb : SameTypes b b') {place place' : Position} {c : Ty}
    (h : joinAt a b place = .ok c) :
    ∃ c', Typing.joinAt a' b' place' = .ok c' ∧ SameTypes c c' := by
  obtain ⟨c', hc', hsame⟩ := ha.join hb (joinAt_eq_ok_iff.mp h)
  exact ⟨c', joinAt_eq_ok_iff.mpr hc', hsame⟩

end SameTypes

def SameFound (found found' : List (Ty × Position)) : Prop :=
  (found'.map Prod.fst).map Ty.nameless = (found.map Prod.fst).map Ty.nameless

theorem SameFound.joinAll {first first' last last' : Ty} {rest rest' : List (Ty × Position)}
    (hfirst : SameTypes first first') (hrest : SameFound rest rest') (hlast : SameTypes last last')
    {place place' : Position} {c : Ty} (h : joinAll first (rest ++ [(last, place)]) = .ok c) :
    ∃ c', Typing.joinAll first' (rest' ++ [(last', place')]) = .ok c' ∧ SameTypes c c' := by
  have hjoin : ∀ (a b : Ty) (found : List (Ty × Position)) (place : Position),
      ((found ++ [(b, place)]).map Prod.fst).foldlM Ty.join a =
        Ty.joinMany (a :: (found.map Prod.fst ++ [b])) := by
    intro a b found place
    rw [List.map_append]
    rfl
  rw [joinAll_eq_ok_iff, hjoin] at h
  have hsame : (first' :: (rest'.map Prod.fst ++ [last'])).map Ty.nameless =
      (first :: (rest.map Prod.fst ++ [last])).map Ty.nameless := by
    rw [List.map_cons, List.map_cons, List.map_append, List.map_append, hrest, hfirst,
      List.map_singleton, List.map_singleton, hlast]
  have hjoined := Ty.joinMany_nameless (first' :: (rest'.map Prod.fst ++ [last']))
  rw [hsame, Ty.joinMany_nameless] at hjoined
  obtain ⟨c', hc', hnameless⟩ := SameTypes.exists_of_map hjoined.symm h
  refine ⟨c', ?_, hnameless⟩
  rw [joinAll_eq_ok_iff, hjoin, hc']

section Expressions

variable {locals locals' : List Scope} {visit visit' : Declaration → Check Unit}

theorem resolve_follows (h : r.Site p d) (name : String) (place : Position) :
    Follows r p [d.frame] [(r.declaration d).frame] (Twins r p) (resolve name place)
      (resolve (r.inside d.name name) place) := by
  intro resolved s t symbol u hs ht hstep
  have hlift : resolve name place s = lift (s.scopes.resolve name place) s := rfl
  rw [hlift, lift_eq_ok_iff] at hstep
  obtain ⟨hsymbol, rfl⟩ := hstep
  unfold Scopes.resolve at hsymbol
  rw [hs, resolve?_globals] at hsymbol
  cases hlookup : (environment p d).lookup name with
  | none =>
    rw [hlookup] at hsymbol
    cases hsymbol
  | some meaning =>
    rw [hlookup] at hsymbol
    cases hsymbol
    refine ⟨resolved, _, t, resolve_of_lookup ht (lookup_renamed h hlookup) place, ?_, hs, ht⟩
    exact twins_symbol h hlookup resolved

def VisitsFollow (r : Renaming) (p : Program) (locals locals' : List Scope)
    (visit visit' : Declaration → Check Unit) : Prop :=
  ∀ f ∈ p.declarations,
    Follows r p locals locals' (fun _ _ => True) (visit f) (visit' (r.declaration f))

theorem visitSymbol_follows (hv : VisitsFollow r p locals locals' visit visit') {a b : Symbol}
    (h : Twins r p a b) :
    Follows r p locals locals' (fun _ _ => True) (visitSymbol visit a) (visitSymbol visit' b) := by
  unfold visitSymbol
  rw [SameTypes.isResolved h.type, h.declaration]
  split
  · exact .pure trivial
  · cases hdeclaration : a.declaration? with
    | none => exact .pure trivial
    | some f => exact hv f (h.mem f hdeclaration)

theorem calleeType_follows (h : r.Site p d)
    (hv : VisitsFollow r p [d.frame] [(r.declaration d).frame] visit visit') (callee : String)
    (place : Position) :
    Follows r p [d.frame] [(r.declaration d).frame]
      (fun found found' => SameTypes (.function found.1 found.2) (.function found'.1 found'.2))
      (calleeType visit callee place) (calleeType visit' (r.inside d.name callee) place) := by
  refine .bind (resolve_follows h callee place) fun a b hab => ?_
  refine .bind (visitSymbol_follows hv hab) fun _ _ _ => ?_
  refine .bind (resolve_follows h callee place) fun a b hab => ?_
  have htype := hab.type
  generalize a.type = type at htype
  generalize b.type = type' at htype
  cases type with
  | function inputs output =>
    cases type' with
    | function inputs' output' => exact .pure htype
    | _ => cases htype
  | _ => exact .throw

theorem expecting_follows {found found' : Check Ty} (expected : Ty) {e e' : Expr}
    (h : Follows r p locals locals' SameTypes found found') :
    Follows r p locals locals' (fun _ _ => True) (expecting expected e found)
      (expecting expected e' found') := by
  refine .bind h fun a b hab => .ensure (fun hkind => ?_) trivial
  rw [SameTypes.sameKind hab rfl]
  exact hkind

/-- Arguments are accepted for the kinds of their types. -/
theorem checkArguments_eq_ok_iff_kinds {callee : String} {place : Position}
    {inputs : List (Parameter Ty)} {found : List (Ty × Position)} :
    checkArguments callee place inputs found = .ok () ↔
      inputs.map (fun input => input.type.kind) = (found.map Prod.fst).map Ty.kind := by
  rw [checkArguments_eq_ok_iff, ← List.forall₂_eq_eq_eq, List.forall₂_map_left_iff]
  simp only [List.forall₂_map_right_iff, Ty.sameKind_iff]

theorem checkArguments_follows {callee callee' : String} {place place' : Position}
    {inputs inputs' : List (Parameter Ty)} {found found' : List (Ty × Position)}
    (hinputs : Ty.namelessAll inputs' = Ty.namelessAll inputs) (hfound : SameFound found found')
    (h : checkArguments callee place inputs found = .ok ()) :
    checkArguments callee' place' inputs' found' = .ok () := by
  have hkinds : ∀ inputs : List (Parameter Ty), inputs.map (fun input => input.type.kind) =
      (Ty.namelessAll inputs).map fun input => input.type.kind := by
    intro inputs
    simp [Ty.namelessAll_eq_map]
  have hfoundKinds : ∀ types : List Ty,
      types.map Ty.kind = (types.map Ty.nameless).map Ty.kind := by
    intro types
    simp
  rw [checkArguments_eq_ok_iff_kinds, hkinds, hfoundKinds] at h ⊢
  rw [hinputs, h, hfound]

mutual

/-- The type of an expression is the same with the parameter renamed. -/
theorem infer_follows (h : r.Site p d)
    (hv : VisitsFollow r p [d.frame] [(r.declaration d).frame] visit visit') : ∀ e : Expr,
    Follows r p [d.frame] [(r.declaration d).frame] SameTypes (infer visit e)
      (infer visit' (e.mapNames (r.inside d.name)))
  | .boolean _ _ | .number _ _ | .text _ _ => .pure rfl
  | .identifier span name =>
    .bind (resolve_follows h name span.start) fun _ _ hab => .pure hab.type
  | .call span callee arguments => by
    refine .bind (calleeType_follows h hv callee span.start) fun found found' hfound => ?_
    refine .bind (inferAll_follows h hv arguments) fun types types' htypes => ?_
    obtain ⟨hinputs, houtput⟩ := Ty.function.inj hfound
    refine .bind (R := SameTypes) (.lift fun _ haccepted => ?_) fun _ _ (_ : True) => .pure houtput
    exact ⟨(), checkArguments_follows hinputs htypes haccepted, trivial⟩
  | .unary _ .not operand =>
    .bind (expecting_follows .boolean (infer_follows h hv operand)) fun _ _ _ => .pure rfl
  | .unary _ .negate operand =>
    .bind (expecting_follows .real (infer_follows h hv operand)) fun _ _ _ => .pure rfl
  | .binary _ op left right => by
    have hleft := infer_follows h hv left
    have hright := infer_follows h hv right
    cases op with
    | or | and | arithmetic _ | compare _ =>
      refine .bind (expecting_follows _ hleft) fun _ _ _ => ?_
      exact .bind (expecting_follows _ hright) fun _ _ _ => .pure rfl
    | equals =>
      refine .bind hleft fun a a' ha => .bind hright fun b b' hb => ?_
      rw [ha.sameKind hb]
      split
      · exact .pure rfl
      · exact .throw
    | concat =>
      refine .bind hleft fun a a' ha => ?_
      rw [ha.isNone_element?]
      split
      · exact .bind (Q := fun _ _ => False) .throw fun _ _ h => h.elim
      · refine .bind hright fun b b' hb => ?_
        cases hjoined : a.joinLists b with
        | none => exact .throw
        | some c =>
          obtain ⟨c', hc', hsame⟩ := ha.joinLists hb hjoined
          rw [hc']
          exact .pure hsame
  | .conditional _ condition whenTrue whenFalse => by
    refine .bind (expecting_follows .boolean (infer_follows h hv condition)) fun _ _ _ => ?_
    refine .bind (infer_follows h hv whenTrue) fun a a' ha => ?_
    refine .bind (infer_follows h hv whenFalse) fun b b' hb => ?_
    exact .lift fun c hc => ha.joinAt hb hc
  | .list _ [] => .pure rfl
  | .list _ (first :: rest) => by
    refine .bind (infer_follows h hv first) fun type type' htype => ?_
    refine .bind (inferJoined_follows h hv rest htype) fun joined joined' hjoined => .pure ?_
    exact congrArg Ty.list hjoined

theorem inferAll_follows (h : r.Site p d)
    (hv : VisitsFollow r p [d.frame] [(r.declaration d).frame] visit visit') : ∀ es : List Expr,
    Follows r p [d.frame] [(r.declaration d).frame] SameFound (inferAll visit es)
      (inferAll visit' (Expr.mapNamesAll (r.inside d.name) es))
  | [] => .pure rfl
  | e :: rest => by
    refine .bind (infer_follows h hv e) fun type type' htype => ?_
    refine .bind (inferAll_follows h hv rest) fun found found' hfound => .pure ?_
    exact congrArg₂ List.cons htype hfound

theorem inferJoined_follows (h : r.Site p d)
    (hv : VisitsFollow r p [d.frame] [(r.declaration d).frame] visit visit') :
    ∀ (es : List Expr) {type type' : Ty}, SameTypes type type' →
    Follows r p [d.frame] [(r.declaration d).frame] SameTypes (inferJoined visit type es)
      (inferJoined visit' type' (Expr.mapNamesAll (r.inside d.name) es))
  | [], _, _, htype => .pure htype
  | e :: rest, _, _, htype => by
    refine .bind (infer_follows h hv e) fun received received' hreceived => ?_
    refine .bind (.lift fun c hc => htype.joinAt hreceived hc) fun joined joined' hjoined => ?_
    exact inferJoined_follows h hv rest hjoined

end

theorem inferBranches_follows (h : r.Site p d)
    (hv : VisitsFollow r p [d.frame] [(r.declaration d).frame] visit visit')
    (branches : List Branch) :
    Follows r p [d.frame] [(r.declaration d).frame] SameFound (inferBranches visit branches)
      (inferBranches visit' (branches.map (Branch.mapNames (r.inside d.name)))) := by
  induction branches with
  | nil => exact .pure rfl
  | cons branch rest ih =>
    have hguard := infer_follows h hv branch.guard
    refine .bind (expecting_follows .boolean hguard) fun _ _ _ => ?_
    refine .bind (infer_follows h hv branch.action) fun type type' htype => ?_
    exact .bind ih fun found found' hfound => .pure (congrArg₂ List.cons htype hfound)

theorem inferBody_follows (h : r.Site p d)
    (hv : VisitsFollow r p [d.frame] [(r.declaration d).frame] visit visit') (body : Body) :
    Follows r p [d.frame] [(r.declaration d).frame] SameTypes (inferBody visit body)
      (inferBody visit' (body.mapNames (r.inside d.name))) := by
  cases body with
  | inline value => exact infer_follows h hv value
  | piecewise span branches otherwise =>
    refine .bind (inferBranches_follows h hv branches) fun found found' hfound => ?_
    refine .bind (infer_follows h hv otherwise) fun last last' hlast => ?_
    cases found with
    | nil =>
      cases found' with
      | nil => exact .pure hlast
      | cons first' rest' => cases hfound
    | cons first rest =>
      cases found' with
      | nil => cases hfound
      | cons first' rest' =>
        obtain ⟨hfirst, hrest⟩ := List.cons_eq_cons.mp hfound
        exact .lift fun c hc => SameFound.joinAll hfirst hrest hlast hc

end Expressions

section Visits

theorem mem_program {f : Declaration} (hf : f ∈ p.declarations) :
    r.declaration f ∈ (r.program p).declarations :=
  List.mem_map_of_mem hf

theorem nodup_names_program (hp : p.names.Nodup) : (r.program p).names.Nodup := by
  rwa [Renaming.names_program]

/-- Nothing is done for a function that has its type, in both programs. For others the visits must
follow one another. -/
theorem unlessResolved_follows (hp : p.names.Nodup) {f : Declaration} (hf : f ∈ p.declarations)
    {locals locals' : List Scope} {step twin : Check Unit}
    (h : ∀ resolved s t u, s.scopes = ⟨p.globals resolved, locals⟩ →
      t.scopes = ⟨(r.program p).globals resolved, locals'⟩ → f.name ∉ resolved →
      step s = .ok () u → ∃ after v, twin t = .ok () v ∧ u.scopes = ⟨p.globals after, locals⟩ ∧
        v.scopes = ⟨(r.program p).globals after, locals'⟩) :
    Follows r p locals locals' (fun _ _ => True) (unlessResolved f step)
      (unlessResolved (r.declaration f) twin) := by
  intro resolved s t _ u hs ht hstep
  by_cases hmem : f.name ∈ resolved
  · rw [unlessResolved_of_mem hp hf hs hmem] at hstep
    cases hstep
    have htwin := unlessResolved_of_mem (nodup_names_program hp) (mem_program hf) ht hmem twin
    exact ⟨resolved, (), t, htwin, trivial, hs, ht⟩
  · rw [unlessResolved_of_not_mem hp hf hs hmem] at hstep
    obtain ⟨after, v, htwin, hu, hv⟩ := h resolved s t u hs ht hmem hstep
    refine ⟨after, (), v, ?_, trivial, hu, hv⟩
    rw [unlessResolved_of_not_mem (nodup_names_program hp) (mem_program hf) ht hmem, htwin]

/-- Visits succeed in the renamed program where they do in the program. -/
theorem visitWithin_follows (h : r.Fits p) (hp : p.names.Nodup) (n : Nat) :
    ∀ locals locals', VisitsFollow r p locals locals' (visitWithin n) (visitWithin n) := by
  induction n with
  | zero =>
    intro locals locals' f hf
    apply unlessResolved_follows hp hf
    intro resolved s t u hs ht _ hstep
    cases hstep
    exact ⟨resolved, t, rfl, hs, ht⟩
  | succ n ih =>
    intro locals locals' f hf
    apply unlessResolved_follows hp hf
    intro resolved s t u hs ht _ hstep
    have hsite : r.Site p f := ⟨h, hp, hf⟩
    obtain ⟨w, hbody, rfl⟩ := (inFrame_eq_ok_iff hs).mp hstep
    obtain ⟨hdistinct, type, hinfer, hagrees⟩ := (visitBody_eq_ok_iff hp hf rfl _).mp hbody
    obtain ⟨after, type', x, hinfer', htype, hw, hx⟩ :=
      inferBody_follows hsite (ih [f.frame] [(r.declaration f).frame]) f.body
        (f.name :: resolved) _
        ⟨⟨(r.program p).globals (f.name :: resolved), [(r.declaration f).frame]⟩,
          f.name :: t.visited⟩ type w rfl rfl hinfer
    have hagrees' : type'.agrees f.output = true := by
      rw [htype.agrees rfl]
      exact hagrees
    have hbody' : visitBody (visitWithin n) (r.declaration f)
        { t with scopes := ⟨(r.program p).globals resolved, [.empty]⟩ } = .ok () x :=
      (visitBody_eq_ok_iff (nodup_names_program hp) (mem_program hf) rfl _).mpr
        ⟨hsite.nodup_parameterNames hdistinct, type', hinfer', hagrees'⟩
    refine ⟨after, _, (inFrame_eq_ok_iff ht).mpr ⟨x, hbody', rfl⟩, ?_, ?_⟩
    · rw [hw]
    · rw [hx]

theorem unresolved_program (resolved : List String) :
    (r.program p).unresolved resolved = p.unresolved resolved := by
  unfold Program.unresolved Renaming.program
  rw [List.countP_map]
  rfl

/-- Both visits may nest as deeply, for as many functions are without a type. -/
theorem visitAll_follows (h : r.Fits p) (hp : p.names.Nodup) (ds : List Declaration)
    (hds : ∀ d ∈ ds, d ∈ p.declarations) :
    Follows r p [] [] (fun _ _ => True) (visitAll ds) (visitAll (ds.map r.declaration)) := by
  induction ds with
  | nil => exact .pure trivial
  | cons d ds ih =>
    obtain ⟨hd, hds⟩ := List.forall_mem_cons.mp hds
    refine .bind (Q := fun _ _ => True) ?_ fun _ _ _ => ih hds
    intro resolved s t a u hs ht hstep
    have hpending : t.scopes.pending = s.scopes.pending := by
      rw [hs, ht, Program.pending_globals, Program.pending_globals, unresolved_program]
    have hvisit : visit (r.declaration d) t =
        visitWithin s.scopes.pending (r.declaration d) t := by
      rw [← hpending]
      rfl
    rw [hvisit]
    exact visitWithin_follows h hp s.scopes.pending [] [] d hd resolved s t a u hs ht hstep

/-- The renamed program is accepted where the program is. -/
theorem accepted_renamed (h : r.Fits p) {checked : Scopes} (haccepted : p.Accepted checked) :
    (r.program p).Accepted ⟨(r.program p).signatures, []⟩ := by
  obtain ⟨s, hs⟩ := checkProgram_of_accepted haccepted
  obtain ⟨declared, hdeclared, _⟩ := haccepted
  obtain ⟨hp, _⟩ := Scopes.ofProgram_eq_ok_iff.mp hdeclared
  obtain ⟨_, _, t, ht, _⟩ := visitAll_follows h hp p.declarations (fun _ hd => hd) [] _
    (.initial ⟨(r.program p).globals [], []⟩) () s rfl rfl hs
  have haccepted' : (r.program p).Accepted t.scopes := by
    refine ⟨_, Scopes.ofProgram_eq_ok_iff.mpr ⟨nodup_names_program hp, rfl⟩, ?_⟩
    have hcheck' : checkProgram (r.program p) (.initial ⟨(r.program p).globals [], []⟩) =
      .ok () t := ht
    rw [Program.check, hcheck']
  rwa [(typed_of_accepted haccepted').2.1] at haccepted'

end Visits

end Typing

end Piecewise
