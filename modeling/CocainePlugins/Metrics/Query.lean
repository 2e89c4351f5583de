import Mathlib.Data.List.Infix
import CocainePlugins.Framework.Dynamic

/-!
# Queries of metrics

A query is a dynamic value: each node is an object with one name, under which its arguments are.
The registry compiles it into a function of a metric, which throws when it takes something else
for a string.

`Query` is what the nodes mean. The registry makes of a query what the query means, but for `ge`:
that does not look at its arguments, neither when it is compiled nor when a metric comes, and
accepts every metric. So a filter is what its query means with something true for each `ge`
(`Query.lax`).
-/

namespace Cocaine.Metrics

open Framework

/-- A `tagged_t`; its type is one of its tags. -/
structure Tagged where
  name : Str
  type : Str
  tags : List (Str × Str) := []
deriving DecidableEq

def Tagged.tag (m : Tagged) (name : Str) : Option Str :=
  if name = "type".toList then some m.type else m.tags.lookup name

def string (s : Str) : Dyn := .scalar (.string s)

/-- `as_string`, which throws. -/
def asString : Dyn → Option Str
  | .scalar (.string s) => some s
  | _ => none

/-- The comparisons of dynamic values. -/
structure Comparisons where
  eq : Dyn → Dyn → Bool
  ge : Dyn → Dyn → Bool

/-! ## The registry -/

/-- What an extractor and a filter give for a metric, if they do not throw. -/
abbrev Extractor := Tagged → Option Dyn
abbrev Predicate := Tagged → Option Bool

/-- Why a query is not compiled. -/
inductive Rejection where
  | error (what : Str)
  /-- The exception of `as_array`. -/
  | notArray
deriving DecidableEq

/-- The node factories and the filters that the service registers. -/
inductive ExtractorName where
  | tag | name | type | const
deriving DecidableEq, Repr

inductive FilterName where
  | eq | ge | or | and | contains
deriving DecidableEq, Repr

def ExtractorName.text : ExtractorName → Str
  | .tag => "tag".toList
  | .name => "name".toList
  | .type => "type".toList
  | .const => "const".toList

def ExtractorName.children : ExtractorName → Nat
  | .tag | .const => 1
  | .name | .type => 0

def FilterName.text : FilterName → Str
  | .eq => "eq".toList
  | .ge => "ge".toList
  | .or => "or".toList
  | .and => "and".toList
  | .contains => "contains".toList

def FilterName.arity : FilterName → Option Nat
  | .eq | .ge | .contains => some 2
  | .or | .and => none

def extractors : List ExtractorName := [.tag, .name, .type, .const]

def filters : List FilterName := [.eq, .ge, .or, .and, .contains]

def quoted (name : Str) : Str := "'".toList ++ name ++ "'".toList

/-- What `make_filter` and `make_extractor` share: what is wrong with a node, or the entry of the
registry for its name; `kind` is the word of the messages. -/
def lookupNode {α : Type} (kind : Str) (entries : List α) (text : α → Str) (arity : α → Option Nat)
    (name : Str) (args : List Dyn) : Except Rejection α :=
  match entries.find? fun x => text x = name with
  | none => .error (.error ("unknown ".toList ++ kind ++ " ".toList ++ quoted name))
  | some x =>
    match arity x with
    | none => .ok x
    | some n =>
      if n = args.length then .ok x
      else .error (.error ("expected ".toList ++ (Nat.repr n).toList ++ " arguments for ".toList ++
        kind ++ " ".toList ++ quoted name ++ ", found ".toList ++ (Nat.repr args.length).toList))

/-- What is wrong with a value that is no node. -/
def notNode (kind : Str) : Dyn → Rejection
  | .object [_] => .notArray
  | .object _ => .error ("AST ".toList ++ kind ++ " node must have exactly one name".toList)
  | .scalar _ | .array _ => .error ("AST ".toList ++ kind ++ " node must be an object".toList)

def constExtractor (value : Dyn) : Extractor := fun _ => some value

def nameExtractor : Extractor := fun m => some (string m.name)

def typeExtractor : Extractor := fun m => some (string m.type)

def tagExtractor (ex : Extractor) : Extractor := fun m =>
  ((ex m).bind asString).map fun name => string ((m.tag name).getD [])

def makeExtractor : Dyn → Except Rejection Extractor
  | .object [(name, .array args)] =>
    match lookupNode "extractor".toList extractors ExtractorName.text
      (some ∘ ExtractorName.children) name args with
    | .error e => .error e
    | .ok .const => .ok (constExtractor (args.headD .null))
    | .ok .name => .ok nameExtractor
    | .ok .type => .ok typeExtractor
    | .ok .tag =>
      match args with
      | [arg] => (makeExtractor arg).map tagExtractor
      -- The number of arguments has been checked.
      | _ => .error .notArray
  | v => .error (notNode "extractor".toList v)

section Filters

variable (P : Comparisons)

def eqFilter (f₁ f₂ : Extractor) : Predicate := fun m =>
  (f₁ m).bind fun a => (f₂ m).map fun b => P.eq a b

def containsFilter (f₁ f₂ : Extractor) : Predicate := fun m =>
  ((f₁ m).bind asString).bind fun name =>
    ((f₂ m).bind asString).map fun substring => decide (substring <:+: name)

def geFilter : Predicate := fun _ => some true

/-- `std::all_of` and `std::any_of`. -/
def allOf : List Predicate → Predicate
  | [], _ => some true
  | q :: functions, m => (q m).bind fun b => if b then allOf functions m else some false

def anyOf : List Predicate → Predicate
  | [], _ => some false
  | q :: functions, m => (q m).bind fun b => if b then some true else anyOf functions m

/-- What the filters of two extractors share. -/
def createPair (make : Extractor → Extractor → Predicate) (args : List Dyn) :
    Except Rejection Predicate :=
  match makeExtractor (args.getD 0 .null) with
  | .error e => .error e
  | .ok f₁ => (makeExtractor (args.getD 1 .null)).map fun f₂ => make f₁ f₂

mutual

def makeFilter : Dyn → Except Rejection Predicate
  | .object [(name, .array args)] =>
    match lookupNode "filter".toList filters FilterName.text FilterName.arity name args with
    | .error e => .error e
    | .ok .eq => createPair (eqFilter P) args
    | .ok .ge => .ok geFilter
    | .ok .contains => createPair containsFilter args
    | .ok .and => (makeFilters args).map allOf
    | .ok .or => (makeFilters args).map anyOf
  | v => .error (notNode "filter".toList v)

def makeFilters : List Dyn → Except Rejection (List Predicate)
  | [] => .ok []
  | arg :: args =>
    match makeFilter arg with
    | .error e => .error e
    | .ok f => (makeFilters args).map (f :: ·)

end

end Filters

/-! ## What a query means -/

inductive Extract where
  | const (value : Dyn)
  | name
  | type
  | tag (name : Extract)

/-- A query. The arguments of a `ge` are anything. -/
inductive Query where
  | eq (a b : Extract)
  | ge (a b : Dyn)
  | contains (a b : Extract)
  | and (qs : List Query)
  | or (qs : List Query)

namespace Extract

def ofDyn : Dyn → Option Extract
  | .object [(key, .array args)] =>
    match extractors.find? fun x => x.text = key with
    | none => none
    | some .const =>
      match args with
      | [value] => some (.const value)
      | _ => none
    | some .name => if args = [] then some .name else none
    | some .type => if args = [] then some .type else none
    | some .tag =>
      match args with
      | [arg] => (ofDyn arg).map .tag
      | _ => none
  | _ => none

/-- A tag that the metric does not have is empty. -/
def value (m : Tagged) : Extract → Option Dyn
  | .const v => some v
  | .name => some (string m.name)
  | .type => some (string m.type)
  | .tag e => ((e.value m).bind asString).map fun name => string ((m.tag name).getD [])

end Extract

namespace Query

mutual

def ofDyn : Dyn → Option Query
  | .object [(name, .array args)] =>
    match filters.find? fun x => x.text = name with
    | none => none
    | some .eq =>
      match args with
      | [a, b] => (Extract.ofDyn a).bind fun x => (Extract.ofDyn b).map fun y => .eq x y
      | _ => none
    | some .ge =>
      match args with
      | [a, b] => some (.ge a b)
      | _ => none
    | some .contains =>
      match args with
      | [a, b] => (Extract.ofDyn a).bind fun x => (Extract.ofDyn b).map fun y => .contains x y
      | _ => none
    | some .and => (ofDyns args).map .and
    | some .or => (ofDyns args).map .or
  | _ => none

def ofDyns : List Dyn → Option (List Query)
  | [] => some []
  | v :: vs => (ofDyn v).bind fun q => (ofDyns vs).map (q :: ·)

end

section Meaning

variable (P : Comparisons) (cmp : Dyn → Dyn → Tagged → Option Bool) (m : Tagged)

mutual

/-- Whether the query is true of a metric, with `cmp` for `ge`; it has no value where something
else stands for a string. -/
def evalWith : Query → Option Bool
  | .eq a b => (a.value m).bind fun x => (b.value m).map fun y => P.eq x y
  | .ge a b => cmp a b m
  | .contains a b =>
    ((a.value m).bind asString).bind fun name =>
      ((b.value m).bind asString).map fun substring => decide (substring <:+: name)
  | .and qs => evalAll qs
  | .or qs => evalAny qs

def evalAll : List Query → Option Bool
  | [] => some true
  | q :: qs => (evalWith q).bind fun b => if b then evalAll qs else some false

def evalAny : List Query → Option Bool
  | [] => some false
  | q :: qs => (evalWith q).bind fun b => if b then some true else evalAny qs

end

/-- The first value is at least the second; other arguments than extractors have no values. -/
def atLeast (a b : Dyn) (m : Tagged) : Option Bool :=
  ((Extract.ofDyn a).bind fun x => x.value m).bind fun x =>
    ((Extract.ofDyn b).bind fun y => y.value m).map fun y => P.ge x y

def eval (q : Query) : Option Bool := q.evalWith P (atLeast P) m

mutual

/-- The evaluation comes only to a `ge` that is true. -/
def Reached : Query → Prop
  | .eq _ _ | .contains _ _ => True
  | .ge a b => atLeast P a b m = some true
  | .and qs => ReachedAll qs
  | .or qs => ReachedAny qs

def ReachedAll : List Query → Prop
  | [] => True
  | q :: qs => Reached q ∧ (q.eval P m = some true → ReachedAll qs)

def ReachedAny : List Query → Prop
  | [] => True
  | q :: qs => Reached q ∧ (q.eval P m = some false → ReachedAny qs)

end

end Meaning

mutual

/-- The query with something true for each `ge`. -/
def lax : Query → Query
  | .ge _ _ => .and []
  | .and qs => .and (laxAll qs)
  | .or qs => .or (laxAll qs)
  | .eq a b => .eq a b
  | .contains a b => .contains a b

def laxAll : List Query → List Query
  | [] => []
  | q :: qs => lax q :: laxAll qs

end

end Query

/-- The registry makes of a value what is read from it, and rejects it if nothing is. -/
def Compiles {α β : Type} (read : Option α) (f : α → β) (made : Except Rejection β) : Prop :=
  match read with
  | some a => made = .ok (f a)
  | none => ∃ e, made = .error e

theorem Compiles.map {α β α' β' : Type} {read : Option α} {f : α → β} {made : Except Rejection β}
    (h : Compiles read f made) {g : α → α'} {k : β → β'} {f' : α' → β'} (hf : ∀ a, f' (g a) = k (f a)) :
    Compiles (read.map g) f' (made.map k) := by
  cases read with
  | some a =>
    rw [Compiles] at h
    rw [h]
    exact congrArg Except.ok (hf a).symm
  | none =>
    obtain ⟨e, rfl⟩ := h
    exact ⟨e, rfl⟩

section Lookup

variable {α : Type} {kind name : Str} {entries : List α} {text : α → Str} {arity : α → Option Nat}
  {args : List Dyn} {x : α}

theorem lookupNode_unknown (h : (entries.find? fun x => text x = name) = none) :
    ∃ e, lookupNode kind entries text arity name args = .error e :=
  ⟨_, by rw [lookupNode, h]⟩

theorem lookupNode_arity (kind : Str) (h : (entries.find? fun x => text x = name) = some x)
    {n : Nat} (ha : arity x = some n) (hn : n ≠ args.length) :
    ∃ e, lookupNode kind entries text arity name args = .error e :=
  ⟨_, by rw [lookupNode, h]; simp only [ha]; exact if_neg hn⟩

theorem lookupNode_ok (h : (entries.find? fun x => text x = name) = some x)
    (ha : ∀ n, arity x = some n → n = args.length) :
    lookupNode kind entries text arity name args = .ok x := by
  rw [lookupNode, h]
  cases hx : arity x with
  | none => simp only [hx]
  | some n => simp only [hx]; exact if_pos (ha n hx)

end Lookup

theorem makeExtractor_compiles (v : Dyn) :
    Compiles (Extract.ofDyn v) (fun e m => e.value m) (makeExtractor v) := by
  -- A node of a known name with another number of arguments.
  have harity : ∀ {name : Str} {args : List Dyn} {x : ExtractorName},
      (extractors.find? fun x => x.text = name) = some x → x.children ≠ args.length →
      ∃ e, makeExtractor (.object [(name, .array args)]) = .error e := by
    intro name args x h hn
    have ha : (some ∘ ExtractorName.children) x = some x.children := rfl
    obtain ⟨e, he⟩ := lookupNode_arity "extractor".toList h ha hn
    exact ⟨e, by unfold makeExtractor; rw [he]⟩
  fun_induction Extract.ofDyn v with
  | case1 name args h =>
    obtain ⟨e, he⟩ := lookupNode_unknown h
    exact ⟨e, by unfold makeExtractor; rw [he]⟩
  | case2 name h value =>
    unfold makeExtractor
    rw [Compiles, lookupNode_ok h (by simp [ExtractorName.children])]
    rfl
  | case3 name args h hargs =>
    refine harity h fun hn => ?_
    obtain ⟨a, rfl⟩ := List.length_eq_one_iff.mp hn.symm
    exact hargs a rfl
  | case4 name h | case6 name h =>
    unfold makeExtractor
    rw [Compiles, lookupNode_ok h (by simp [ExtractorName.children])]
    rfl
  | case5 name args h hargs | case7 name args h hargs =>
    exact harity h fun hn => hargs (List.length_eq_zero_iff.mp hn.symm)
  | case8 name h arg ih =>
    rw [makeExtractor, lookupNode_ok h (by simp [ExtractorName.children])]
    exact ih.map fun e => rfl
  | case9 name args h hargs =>
    refine harity h fun hn => ?_
    obtain ⟨a, rfl⟩ := List.length_eq_one_iff.mp hn.symm
    exact hargs a rfl
  | case10 v hv => exact ⟨_, by rw [makeExtractor]; exact hv⟩

section Filters

variable {P : Comparisons}

theorem createPair_compiles {mk : Extract → Extract → Query} {make : Extractor → Extractor → Predicate}
    {f : Query → Predicate}
    (hf : ∀ x y, f (mk x y) = make (fun m => x.value m) fun m => y.value m) (a b : Dyn) :
    Compiles ((Extract.ofDyn a).bind fun x => (Extract.ofDyn b).map fun y => mk x y) f
      (createPair make [a, b]) := by
  have ha := makeExtractor_compiles a
  have hb := makeExtractor_compiles b
  unfold createPair
  cases hx : Extract.ofDyn a with
  | none =>
    rw [hx] at ha
    obtain ⟨e, he⟩ := ha
    exact ⟨e, by simp [he]⟩
  | some x =>
    rw [hx, Compiles] at ha
    simp only [List.getD_cons_zero, List.getD_cons_succ, ha, Option.bind_some]
    exact hb.map fun y => hf x y

/-- What a query comes to when each `ge` is true. -/
def Query.passed (P : Comparisons) (q : Query) : Predicate :=
  fun m => q.evalWith P (fun _ _ _ => some true) m

theorem passed_and (qs : List Query) : (Query.and qs).passed P = allOf (qs.map (Query.passed P)) := by
  funext m
  rw [Query.passed, Query.evalWith]
  induction qs with
  | nil => rfl
  | cons q qs ih => rw [Query.evalAll, ih]; rfl

theorem passed_or (qs : List Query) : (Query.or qs).passed P = anyOf (qs.map (Query.passed P)) := by
  funext m
  rw [Query.passed, Query.evalWith]
  induction qs with
  | nil => rfl
  | cons q qs ih => rw [Query.evalAny, ih]; rfl

/-- A node of a known name with another number of arguments than it takes. -/
theorem makeFilter_arity {name : Str} {args : List Dyn} {x : FilterName}
    (h : (filters.find? fun x => x.text = name) = some x) {n : Nat} (ha : x.arity = some n)
    (hn : n ≠ args.length) : ∃ e, makeFilter P (.object [(name, .array args)]) = .error e := by
  obtain ⟨e, he⟩ := lookupNode_arity "filter".toList h ha hn
  exact ⟨e, by unfold makeFilter; rw [he]⟩

mutual

theorem makeFilter_compiles (v : Dyn) :
    Compiles (Query.ofDyn v) (Query.passed P) (makeFilter P v) := by
  match v with
  | .object [(name, .array args)] =>
    have hlist := makeFilters_compiles args
    unfold Query.ofDyn
    cases h : filters.find? fun x => x.text = name with
    | none =>
      obtain ⟨e, he⟩ := lookupNode_unknown h
      exact ⟨e, by unfold makeFilter; rw [he]⟩
    | some x =>
      cases x with
      | eq | contains =>
        match args with
        | [a, b] =>
          unfold makeFilter
          rw [lookupNode_ok h (by simp [FilterName.arity])]
          exact createPair_compiles (fun _ _ => rfl) a b
        | [] | [_] | _ :: _ :: _ :: _ => exact makeFilter_arity h rfl (by simp)
      | ge =>
        match args with
        | [a, b] =>
          unfold makeFilter
          rw [lookupNode_ok h (by simp [FilterName.arity])]
          rfl
        | [] | [_] | _ :: _ :: _ :: _ => exact makeFilter_arity h rfl (by simp)
      | and =>
        unfold makeFilter
        rw [lookupNode_ok h (by simp [FilterName.arity])]
        exact hlist.map passed_and
      | or =>
        unfold makeFilter
        rw [lookupNode_ok h (by simp [FilterName.arity])]
        exact hlist.map passed_or
  | .scalar _ | .array _ | .object [] | .object [(_, .scalar _)] | .object [(_, .object _)]
  | .object ((_, .scalar _) :: _ :: _) | .object ((_, .array _) :: _ :: _)
  | .object ((_, .object _) :: _ :: _) => exact ⟨_, rfl⟩

theorem makeFilters_compiles (vs : List Dyn) :
    Compiles (Query.ofDyns vs) (List.map (Query.passed P)) (makeFilters P vs) := by
  match vs with
  | [] => rfl
  | v :: vs =>
    have hv := makeFilter_compiles v
    have hvs := makeFilters_compiles vs
    unfold Query.ofDyns makeFilters
    cases hq : Query.ofDyn v with
    | none =>
      rw [hq] at hv
      obtain ⟨e, he⟩ := hv
      exact ⟨e, by rw [he]⟩
    | some q =>
      rw [hq, Compiles] at hv
      rw [hv]
      exact hvs.map fun qs => rfl

end

end Filters

/-! ## Where a query means what it says -/

namespace Query

variable {P : Comparisons} {m : Tagged}

mutual

theorem passed_eq_lax (q : Query) : q.passed P m = q.lax.eval P m := by
  match q with
  | .eq _ _ | .contains _ _ | .ge _ _ => rfl
  | .and qs => exact evalAll_lax qs
  | .or qs => exact evalAny_lax qs

theorem evalAll_lax (qs : List Query) : evalAll P (fun _ _ _ => some true) m qs =
    evalAll P (atLeast P) m (laxAll qs) := by
  match qs with
  | [] => rfl
  | q :: qs =>
    have hq := passed_eq_lax q
    rw [passed, eval] at hq
    rw [laxAll, evalAll, evalAll, hq, evalAll_lax qs]

theorem evalAny_lax (qs : List Query) : evalAny P (fun _ _ _ => some true) m qs =
    evalAny P (atLeast P) m (laxAll qs) := by
  match qs with
  | [] => rfl
  | q :: qs =>
    have hq := passed_eq_lax q
    rw [passed, eval] at hq
    rw [laxAll, evalAny, evalAny, hq, evalAny_lax qs]

end

mutual

/-- A query whose evaluation comes to no `ge` that is not true. -/
theorem passed_eq_eval (q : Query) (h : q.Reached P m) : q.passed P m = q.eval P m := by
  match q with
  | .eq _ _ | .contains _ _ => rfl
  | .ge a b => exact h.symm
  | .and qs => exact evalAll_passed qs h
  | .or qs => exact evalAny_passed qs h

theorem evalAll_passed (qs : List Query) (h : ReachedAll P m qs) :
    evalAll P (fun _ _ _ => some true) m qs = evalAll P (atLeast P) m qs := by
  match qs with
  | [] => rfl
  | q :: qs =>
    have hq := passed_eq_eval q h.1
    rw [passed, eval] at hq
    rw [evalAll, evalAll, hq]
    refine Option.bind_congr fun b hb => ?_
    cases b with
    | false => rfl
    | true => exact evalAll_passed qs (h.2 hb)

theorem evalAny_passed (qs : List Query) (h : ReachedAny P m qs) :
    evalAny P (fun _ _ _ => some true) m qs = evalAny P (atLeast P) m qs := by
  match qs with
  | [] => rfl
  | q :: qs =>
    have hq := passed_eq_eval q h.1
    rw [passed, eval] at hq
    rw [evalAny, evalAny, hq]
    refine Option.bind_congr fun b hb => ?_
    cases b with
    | true => rfl
    | false => exact evalAny_passed qs (h.2 hb)

end

end Query

def node (name : Str) (args : List Dyn) : Dyn := .object [(name, .array args)]

def const (v : Dyn) : Dyn := node "const".toList [v]

end Cocaine.Metrics
