import Catena.Proofs.Evaluation.Likeness
import Catena.Proofs.Evaluation.Run
import Catena.Proofs.Tree.Likeness

/-!
# Runs of like code

Two programs that are alike do the same, as long as the names that their scopes give to like nodes
correspond: by a permutation of names that leaves alone what a text can write outside of locals,
that is functions, imports and qualifiers. What else may differ is left open (`Translation`): the
numbers of nodes and blocks, positions, and the words in errors. Natives, operators and conditions
respect every correspondence; what is left are calls, bindings, definitions, imports and modules.
-/

namespace Catena

open Catena.Action Catena.Eval

/-- How the code of one run is that of another. Each has its own table of names; a name of the first
becomes one of the second by `rename`. -/
structure Translation where
  marks : Likeness NodeId NodeId
  /-- How the next free numbers are compared. -/
  supply : NodeId → NodeId → Prop
  error : RuntimeError → RuntimeError → Prop
  rename : Equiv.Perm String
  table : ScopeTable
  table' : ScopeTable
  /-- The numbers that nodes with a name have. -/
  drawn : NodeId → NodeId → Prop
  /-- The nodes that there are in the first run. -/
  node : Node NodeId → Prop
  /-- The loaders that there may be in the first run. -/
  stock : LoaderStack → Prop
  position_synthetic : marks.position .synthetic .synthetic
  word_refl : ∀ w, marks.word w w
  tag_of_supply : ∀ {n n'}, supply n n' → marks.tag n n'
  supply_succ : ∀ {n n'}, supply n n' → supply (n + 1) (n' + 1)
  error_refl : ∀ e, error e e
  error_shape : ∀ e {word'}, marks.word e.lexeme word' →
    error (.shape e) (.shape { e with lexeme := word' })
  error_unknown : ∀ name, error (.unknownIdentifier name) (.unknownIdentifier (rename name))
  /-- Currying makes nodes that push a value. -/
  node_literal : ∀ m value, node (.literal m value)
  node_array : ∀ m items, node (.array m items)
  node_sequence : ∀ m block body, node (.sequence m block body)
  definition : ∀ {m signature body}, node (.definition m signature body) →
    rename signature.name = signature.name
  member : ∀ {m token name}, node (.identifier m (some token) name) →
    rename token.lexeme = token.lexeme
  importing : ∀ {m request}, node (.importing m request) → ∀ {loaders}, stock loaders →
    (∀ name ∈ request.rename, rename name = name) ∧
    (∀ name ∈ loaders.names request.loaderKey, rename name = name) ∧
    (loaders.has request.loaderKey = true → rename request.mountName = request.mountName)
  /-- Modules are put in only if no name changes. -/
  program : ∀ {m info nodes}, node (.program m info nodes) →
    rename = .refl _ ∧ ∀ {loaders} l, stock loaders → stock (loaders.push l)

namespace Translation

variable (T : Translation)

/-- Names that become each other. -/
def Name (id id' : NodeId) (name name' : String) : Prop :=
  T.drawn id id' ∧ T.marks.word name name' ∧
    T.table'.nameOf id' name' = T.rename (T.table.nameOf id name)

/-- Code that becomes other code. -/
structure Codes (c c' : Code) : Prop where
  alike : List.Forall₂ (Node.Like T.marks T.Name) c c'
  nodes : Node.AllIn T.node c

/-- Where two runs stand: at the same place, with like bindings and loaders. -/
structure Place (s s' : Interpreter) : Prop where
  current : s'.current = s.current
  file : s'.file = s.file
  spaces : s.spaces.Alike T.rename T.marks.tag T.Codes s'.spaces
  stock : T.stock s.loaders
  loaders : List.Forall₂ (Loader.Alike T.marks.tag T.Codes) s.loaders.loaders s'.loaders.loaders
  scopes : s.scopes = T.table
  scopes' : s'.scopes = T.table'
  depth : s'.depth = s.depth
  maxDepth : s'.maxDepth = s.maxDepth

theorem Place.still {T : Translation} {s s' t t' : Interpreter} (h : T.Place s s') (hs : Still s t)
    (hs' : Still s' t') : T.Place t t' where
  current := by rw [hs'.current, hs.current, h.current]
  file := by rw [hs'.file, hs.file, h.file]
  spaces := by rw [hs'.spaces, hs.spaces]; exact h.spaces
  stock := by rw [hs.loaders]; exact h.stock
  loaders := by rw [hs'.loaders, hs.loaders]; exact h.loaders
  scopes := by rw [hs.scopes, h.scopes]
  scopes' := by rw [hs'.scopes, h.scopes']
  depth := by rw [hs'.depth, hs.depth, h.depth]
  maxDepth := by rw [hs'.maxDepth, hs.maxDepth, h.maxDepth]

variable {T} in
/-- Marks of nodes that currying makes. -/
theorem like_synthetic {id id' : NodeId} (hid : T.marks.tag id id') {token : Token}
    (h : token.position = .synthetic) : Mark.Like T.marks ⟨id, token⟩ ⟨id', token⟩ := by
  refine ⟨hid, ?_, T.word_refl _⟩
  show T.marks.position token.position token.position
  rw [h]
  exact T.position_synthetic

/-- Runs of like code that stand at the same place. -/
def correspondence : Correspondence where
  code := T.Codes
  place := T.Place
  failure := Diagnostic.Alike T.error T.marks.position
  error := T.error
  word := T.marks.word
  tag := T.marks.tag
  supply := T.supply
  exhaustion := True
  code_length h := h.alike.length_eq
  code_literal _ value _ _ hid hsynthetic h :=
    ⟨.cons (.literal (like_synthetic hid hsynthetic) value) h.alike, T.node_literal _ _, h.nodes⟩
  code_array _ items _ _ hid hsynthetic h :=
    ⟨.cons (.array (like_synthetic hid hsynthetic) items) h.alike, T.node_array _ _, h.nodes⟩
  code_sequence _ _ _ _ _ _ _ hid hsynthetic hblock hb hc :=
    ⟨.cons (.sequence (like_synthetic hid hsynthetic) hblock hb.alike) hc.alike,
      ⟨T.node_sequence _ _ _, hb.nodes⟩, hc.nodes⟩
  tag_of_supply := T.tag_of_supply
  supply_succ := T.supply_succ
  place_still h hs hs' := h.still hs hs'
  error_refl := T.error_refl
  error_shape e _ h := T.error_shape e h
  failure_ofRuntime h := .ofRuntime h

variable {T} {α : Type} {Q : α → α → Prop}

open Correspondence Evaluation

/-! ## Calls -/

theorem pairs_within {m m' : Eval α} (h : T.correspondence.Pairs m m' Q) (home : NamespaceId)
    (file : Option String) :
    T.correspondence.Pairs (Eval.within home file m) (Eval.within home file m') Q := by
  intro s s' hs
  have hplace : T.Place s s' := hs.place
  have hinside : T.correspondence.States { s with current := home, file }
      { s' with current := home, file } :=
    ⟨hs.stack, hs.console, hs.random, hs.nextId, { hplace with current := rfl, file := rfl }⟩
  rw [Eval.run_within, Eval.run_within]
  refine (h _ _ hinside).moved ?_
  intro u u' hu
  have hafter : T.Place u u' := hu.place
  exact ⟨hu.stack, hu.console, hu.random, hu.nextId,
    { hafter with current := hplace.current, file := hplace.file }⟩

theorem pairs_deeper {m m' : Eval α} (h : T.correspondence.Pairs m m' Q) :
    T.correspondence.Pairs (Eval.deeper m) (Eval.deeper m') Q := by
  intro s s' hs
  have hplace : T.Place s s' := hs.place
  have hinside : T.correspondence.States { s with depth := s.depth + 1 }
      { s' with depth := s'.depth + 1 } :=
    ⟨hs.stack, hs.console, hs.random, hs.nextId,
      { hplace with depth := congrArg (· + 1) hplace.depth }⟩
  rw [Eval.run_deeper, Eval.run_deeper]
  refine (h _ _ hinside).moved ?_
  intro u u' hu
  have hafter : T.Place u u' := hu.place
  exact ⟨hu.stack, hu.console, hu.random, hu.nextId,
    { hafter with depth := congrArg (· - 1) hafter.depth }⟩

section Code

variable {run run' : Code → Eval Unit}
  (hrun : ∀ c c', T.Codes c c' → T.correspondence.Pairs (run c) (run' c') fun _ _ => True)

include hrun

theorem pairs_perform (limit : Nat) {f f' : Function} (hf : f.Alike T.marks.tag T.Codes f') :
    T.correspondence.Pairs (perform limit run f) (perform limit run' f') fun _ _ => True := by
  cases hf with
  | native function access => exact pairs_native limit function hrun fun _ => trivial
  | defined _ _ _ _ _ body => exact hrun _ _ body
  | constant home value => exact Pairs.push value

theorem pairs_performAtHome (limit : Nat) {f f' : Function} (hf : f.Alike T.marks.tag T.Codes f') :
    T.correspondence.Pairs (performAtHome limit run f) (performAtHome limit run' f')
      fun _ _ => True := by
  have hperform := pairs_perform hrun limit hf
  cases hf with
  | native function access => exact hperform
  | @defined d d' _ _ _ home file _ =>
    unfold performAtHome Function.home? Function.file?
    dsimp only
    rw [home, file]
    refine Pairs.bind Pairs.state fun s s' hs => ?_
    rw [Place.file hs.place]
    exact pairs_within hperform _ _
  | constant home value =>
    refine Pairs.bind Pairs.state fun s s' hs => ?_
    rw [Place.file hs.place]
    exact pairs_within hperform _ _

theorem pairs_invoke (limit : Nat) {f f' : Function} (hf : f.Alike T.marks.tag T.Codes f')
    {lexeme lexeme' : String} (hword : T.marks.word lexeme lexeme') :
    T.correspondence.Pairs (invoke limit run f lexeme) (invoke limit run' f' lexeme')
      fun _ _ => True := by
  have hpre : f'.pre = f.pre := by
    cases hf with
    | native | constant => rfl
    | defined _ pre => exact pre
  have hpost : f'.post = f.post := by
    cases hf with
    | native | constant => rfl
    | defined _ _ post => exact post
  have hdepth : T.correspondence.Pairs requireDepth requireDepth fun _ _ => True := by
    refine Pairs.bind Pairs.state fun s s' hs => ?_
    rw [Place.maxDepth hs.place, Place.depth hs.place]
    exact Pairs.ite (fun _ => Pairs.fail (T.error_refl _)) fun _ => Pairs.pure trivial
  unfold invoke
  rw [hpre, hpost]
  exact Pairs.bind (Pairs.requireShape _ _ hword) fun _ _ _ => Pairs.bind hdepth fun _ _ _ =>
    Pairs.bind (pairs_deeper (pairs_performAtHome hrun limit hf)) fun _ _ _ =>
    Pairs.requireShape _ _ hword

end Code

/-! ## Names -/

theorem pairs_nameOf {id id' : NodeId} {name name' : String} (hname : T.Name id id' name name') :
    T.correspondence.Pairs (nameOf id name) (nameOf id' name') fun a a' => a' = T.rename a := by
  refine Pairs.bind Pairs.state fun s s' hs => Pairs.pure ?_
  rw [Place.scopes hs.place, Place.scopes' hs.place]
  exact hname.2.2

theorem pairs_define {b b' : Binding} (hb : b.Alike T.marks.tag T.Codes b') {name name' : String}
    (hname : name' = T.rename name) (isPublic : Bool) :
    T.correspondence.Pairs (define name b isPublic) (define name' b' isPublic)
      fun _ _ => True := by
  subst hname
  intro s s' hs
  have hplace : T.Place s s' := hs.place
  have hspaces : (s.spaces.define s.current name b isPublic).Alike T.rename T.marks.tag T.Codes
      (s'.spaces.define s'.current (T.rename name) b' isPublic) := by
    rw [hplace.current]
    exact hplace.spaces.define hb s.current name isPublic
  exact ⟨trivial, hs.stack, hs.console, hs.random, hs.nextId, { hplace with spaces := hspaces }⟩

theorem results_function {s s' : Interpreter} (hs : T.Place s s') (space : NamespaceId)
    (name : String) :
    T.correspondence.Results (Function.Alike T.marks.tag T.Codes)
      (match (s.spaces.get space).function? name with
        | some f => .ok f
        | none => .error (.unknownIdentifier name))
      (match (s'.spaces.get space).function? (T.rename name) with
        | some f => .ok f
        | none => .error (.unknownIdentifier (T.rename name))) := by
  have hrel := (hs.spaces.get space).function? name
  generalize (s.spaces.get space).function? name = f,
    (s'.spaces.get space).function? (T.rename name) = f' at hrel ⊢
  cases hrel with
  | none => exact T.error_unknown name
  | some hf => exact hf

theorem results_lookUp_bare {s s' : Interpreter} (hs : T.Place s s') (name : String) :
    T.correspondence.Results (Function.Alike T.marks.tag T.Codes) (lookUp s none name)
      (lookUp s' none (T.rename name)) := by
  unfold lookUp
  dsimp only [bind, Except.bind]
  rw [hs.current]
  exact results_function hs s.current name

theorem results_lookUp_member {s s' : Interpreter} (hs : T.Place s s') {token token' : Token}
    (lexeme : token'.lexeme = token.lexeme) (hfixed : T.rename token.lexeme = token.lexeme)
    (name : String) :
    T.correspondence.Results (Function.Alike T.marks.tag T.Codes) (lookUp s (some token) name)
      (lookUp s' (some token') (T.rename name)) := by
  unfold lookUp
  dsimp only [bind, Except.bind]
  rw [hs.current, lexeme, (hs.spaces.get s.current).child hfixed]
  cases (s.spaces.get s.current).child token.lexeme with
  | error e => exact T.error_refl e
  | ok space => exact results_function hs space name

section Code

variable {run run' : Code → Eval Unit}
  (hrun : ∀ c c', T.Codes c c' → T.correspondence.Pairs (run c) (run' c') fun _ _ => True)

include hrun

theorem pairs_callName (limit : Nat) {m m' : Mark NodeId} (mark : Mark.Like T.marks m m')
    {qualifier qualifier' : Option Token} {name name' : String}
    (hsite : T.marks.position (qualifier.getD m.token).position (qualifier'.getD m'.token).position)
    (hlookUp : ∀ s s' name, T.Place s s' →
      T.correspondence.Results (Function.Alike T.marks.tag T.Codes) (lookUp s qualifier name)
        (lookUp s' qualifier' (T.rename name)))
    (hname : T.Name m.tag m'.tag name name') :
    T.correspondence.Pairs (callName limit run m qualifier name)
      (callName limit run' m' qualifier' name') fun _ _ => True := by
  refine Pairs.bind (pairs_nameOf hname) fun a a' ha => Pairs.bind Pairs.state fun s s' hs => ?_
  subst ha
  refine Pairs.bind (Pairs.demand (hlookUp s s' a hs.place)) fun f f' hf => ?_
  refine Pairs.onFailure (pairs_invoke hrun limit hf mark.word) fun u u' hu d d' hd => ?_
  rw [Place.file hu.place]
  exact Diagnostic.Alike.throughCall hd hsite u.file

end Code

theorem pairs_bindValue {id id' : NodeId} {name name' : String} (hname : T.Name id id' name name')
    (isPublic : Bool) :
    T.correspondence.Pairs (bindValue id name isPublic) (bindValue id' name' isPublic)
      fun _ _ => True := by
  refine Pairs.bind (Pairs.requireShape _ _ hname.2.1) fun _ _ _ => Pairs.bind Pairs.pop
    fun v v' hv => Pairs.bind Pairs.state fun s s' hs =>
    Pairs.bind (pairs_nameOf hname) fun a a' ha => ?_
  rw [Place.current hs.place]
  exact pairs_define (.function (.constant s.current hv)) ha isPublic

theorem pairs_defineFunction {signature : Signature}
    (hname : T.rename signature.name = signature.name) {body body' : Code}
    (hbody : T.Codes body body') :
    T.correspondence.Pairs (defineFunction signature body) (defineFunction signature body')
      fun _ _ => True := by
  refine Pairs.bind Pairs.state fun s s' hs => ?_
  have hplace : T.Place s s' := hs.place
  have hdefined := (hplace.spaces.get s.current).isDefined_eq signature.name
  rw [hname] at hdefined
  rw [hplace.current, hplace.file, hdefined]
  refine Pairs.ite (fun _ => Pairs.fail (T.error_refl _)) fun _ => ?_
  let definition (body : Code) : Definition :=
    { name := signature.name, body, pre := signature.pre, post := signature.post,
      home := s.current, file := s.file }
  have halike : Function.Alike T.marks.tag T.Codes (.defined (definition body))
      (.defined (definition body')) := .defined rfl rfl rfl rfl rfl hbody
  exact pairs_define (.function halike) hname.symm signature.isPublic

/-! ## Imports and modules -/

/-- Mounting under a name that stays gives the same namespace, or fails, in both. -/
theorem results_mount {ns ns' : Namespaces} (h : ns.Alike T.rename T.marks.tag T.Codes ns')
    (id : NamespaceId) {name : String} (hname : T.rename name = name) :
    T.correspondence.Results
      (fun x x' => x'.1 = x.1 ∧ x.2.Alike T.rename T.marks.tag T.Codes x'.2)
      (ns.mount id name) (ns'.mount id name) := by
  have hdefined := (h.get id).isDefined_eq name
  rw [hname] at hdefined
  unfold Namespaces.mount
  rw [hdefined, (h.get id).child hname]
  split
  · cases (ns.get id).child name with
    | error e => exact T.error_refl e
    | ok child => exact ⟨rfl, h⟩
  · have hmounted := h.fresh.2.define (.child ns.spaces.size) id name false
    rw [hname] at hmounted
    refine ⟨h.size, ?_⟩
    dsimp only [Namespaces.fresh] at hmounted ⊢
    rw [h.size]
    exact hmounted

/-- An import does the same in both runs. -/
theorem results_imported {s s' : Interpreter} (hs : T.Place s s') {m : Mark NodeId}
    {request : Import} (hnode : T.node (.importing m request)) :
    T.correspondence.Results (Namespaces.Alike T.rename T.marks.tag T.Codes) (imported s request)
      (imported s' request) := by
  obtain ⟨hrename, hnames, hmount⟩ := T.importing hnode hs.stock
  have hfunction := LoaderStack.function?_alike hs.loaders request.loaderKey
  have hhas : s'.loaders.has request.loaderKey = s.loaders.has request.loaderKey :=
    LoaderStack.has_alike hs.loaders _
  have hsame : s'.loaders.names request.loaderKey = s.loaders.names request.loaderKey :=
    LoaderStack.names_alike hs.loaders _
  unfold imported
  dsimp only
  rw [hs.current, hsame, hhas]
  by_cases hkey : s.loaders.has request.loaderKey = true
  · rw [hkey]
    simp only [Bool.not_true, Bool.false_eq_true, if_false]
    split
    · have hmounted := results_mount hs.spaces s.current (hmount hkey)
      generalize s.spaces.mount s.current request.mountName = x,
        s'.spaces.mount s.current request.mountName = x' at hmounted ⊢
      cases x <;> cases x'
      · exact hmounted
      · exact hmounted.elim
      · exact hmounted.elim
      · next x x' =>
        obtain ⟨child, ns⟩ := x
        obtain ⟨child', ns'⟩ := x'
        obtain ⟨hchild, halike⟩ := hmounted
        cases hchild
        refine halike.bindFunctions hfunction _ fun pair hpair => ?_
        obtain ⟨name, hname, rfl⟩ := List.mem_map.1 hpair
        exact hnames name hname
    · split
      · exact T.error_refl _
      · refine hs.spaces.bindFunctions hfunction _ fun pair hpair => ?_
        obtain ⟨name, hname, rfl⟩ := List.mem_map.1 hpair
        dsimp only
        cases halias : request.rename with
        | none => exact hnames name (List.mem_filter.1 hname).1
        | some other => exact hrename other halias
  · rw [Bool.not_eq_true] at hkey
    rw [hkey]
    exact T.error_refl _

theorem pairs_importNames {m : Mark NodeId} {request : Import}
    (hnode : T.node (.importing m request)) :
    T.correspondence.Pairs (importNames request) (importNames request) fun _ _ => True := by
  refine Pairs.bind Pairs.state fun s s' hs =>
    Pairs.bind (Pairs.demand (results_imported hs.place hnode)) fun ns ns' hns => ?_
  intro u u' hu
  have hplace : T.Place u u' := hu.place
  exact ⟨trivial, hu.stack, hu.console, hu.random, hu.nextId, { hplace with spaces := hns }⟩

theorem pairs_freshSpace : T.correspondence.Pairs freshSpace freshSpace (· = ·) := by
  intro s s' hs
  have hplace : T.Place s s' := hs.place
  obtain ⟨hid, hfresh⟩ := hplace.spaces.fresh
  exact ⟨hid.symm, hs.stack, hs.console, hs.random, hs.nextId, { hplace with spaces := hfresh }⟩

theorem pairs_publish (hrename : T.rename = .refl _)
    (hstock : ∀ {loaders} l, T.stock loaders → T.stock (loaders.push l)) (space : NamespaceId)
    (info : ProgramInfo) :
    T.correspondence.Pairs (publish space info) (publish space info) fun _ _ => True := by
  intro s s' hs
  have hplace : T.Place s s' := hs.place
  have hexports := (hplace.spaces.get space).exported
  rw [hrename] at hexports
  exact ⟨trivial, hs.stack, hs.console, hs.random, hs.nextId,
    { hplace with
      stock := hstock _ hplace.stock
      loaders := .cons (.module info.loaderKey info.origin hexports) hplace.loaders }⟩

/-- A program corresponds if its code does, and if it is a root or modules may be put in. -/
theorem pairs_runProgram {info : ProgramInfo} {run run' : Code → Eval Unit} {c c' : Code}
    (hrun : T.correspondence.Pairs (run c) (run' c') fun _ _ => True)
    (hmodule : info.isRoot = false → T.rename = .refl _ ∧
      ∀ {loaders} l, T.stock loaders → T.stock (loaders.push l)) :
    T.correspondence.Pairs (runProgram run info c) (runProgram run' info c') fun _ _ => True := by
  refine Pairs.bind Pairs.state fun s s' hs => ?_
  rw [Place.current hs.place, Place.file hs.place]
  cases hroot : info.isRoot with
  | true => exact pairs_within hrun s.current _
  | false =>
    obtain ⟨hrename, hstock⟩ := hmodule hroot
    refine Pairs.bind pairs_freshSpace fun space space' hspace => ?_
    subst hspace
    exact Pairs.bind (pairs_within hrun space _) fun _ _ _ =>
      pairs_publish hrename hstock space info

/-! ## Code -/

theorem pairs_node (limit : Nat) {run run' : Code → Eval Unit}
    (hrun : ∀ c c', T.Codes c c' → T.correspondence.Pairs (run c) (run' c') fun _ _ => True)
    {n n' : Node NodeId} (halike : Node.Like T.marks T.Name n n') (hnode : n.All T.node) :
    T.correspondence.Pairs (Evaluation.node limit run n) (Evaluation.node limit run' n')
      fun _ _ => True := by
  cases halike with
  | literal _ value => exact Pairs.push (.literal value)
  | arithmetic mark op => exact pairs_arithmetic op mark.word
  | comparison _ op => exact pairs_comparison op
  | condition mark form =>
    simp only [Evaluation.node]
    rw [condition_eq, condition_eq]
    refine Pairs.bind (pairs_branch form mark.word) fun c c' hc => ?_
    cases hc with
    | none => exact Pairs.pure trivial
    | some hcode => exact hrun _ _ hcode
  | sequence _ hblock hbody => exact Pairs.push (.sequence hblock ⟨hbody, hnode.2⟩)
  | definition _ signature hbody =>
    exact pairs_defineFunction (T.definition hnode.1) ⟨hbody, hnode.2⟩
  | use mark hname =>
    exact pairs_callName hrun limit mark mark.position
      (fun s s' name hs => results_lookUp_bare hs name) hname
  | member mark lexeme position hname =>
    exact pairs_callName hrun limit mark position
      (fun s s' name hs => results_lookUp_member hs lexeme (T.member hnode) name) hname
  | importing _ request => exact pairs_importNames hnode
  | binding mark isPublic hname => exact pairs_bindValue hname isPublic
  | array _ items => exact pairs_array items
  | program _ info hnodes =>
    exact pairs_runProgram (hrun _ _ ⟨hnodes, hnode.2⟩) fun _ => T.program hnode.1

theorem pairs_each {f f' : Node NodeId → Eval Unit}
    (hf : ∀ n n', Node.Like T.marks T.Name n n' → n.All T.node →
      T.correspondence.Pairs (f n) (f' n') fun _ _ => True)
    {c c' : Code} (halike : List.Forall₂ (Node.Like T.marks T.Name) c c')
    (hnodes : Node.AllIn T.node c) :
    T.correspondence.Pairs (each f c) (each f' c') fun _ _ => True := by
  induction halike with
  | nil => exact Pairs.pure trivial
  | cons hn _ ih => exact Pairs.bind (hf _ _ hn hnodes.1) fun _ _ _ => ih hnodes.2

/-- **Like code does the same**, with any amount of fuel. -/
theorem pairs_run (fuel : Nat) {c c' : Code} (h : T.Codes c c') :
    T.correspondence.Pairs (exec fuel c) (exec fuel c') fun _ _ => True := by
  induction fuel generalizing c c' with
  | zero => exact Pairs.exhausted trivial
  | succ fuel ih =>
    refine pairs_each (fun n n' halike hnode => ?_) h.alike h.nodes
    refine Pairs.onFailure (pairs_node fuel (fun _ _ hcode => ih hcode) halike hnode)
      fun u u' hu d d' hd => ?_
    rw [Place.file hu.place]
    exact Diagnostic.Alike.locate hd halike.mark.position u.file

theorem rel_peek? {R : Value → Value → Prop} {st st' : Stack}
    (h : List.Forall₂ R st.items st'.items) : Option.Rel R st.peek? st'.peek? := by
  unfold Stack.peek?
  generalize st.items = vs, st'.items = vs' at h ⊢
  cases h with
  | nil => exact .none
  | cons hv _ => exact .some hv

/-- The value that a run leaves on top. -/
theorem pairs_top {C : Correspondence} :
    C.Pairs (do return (← state).stack.peek?) (do return (← state).stack.peek?)
      (Option.Rel C.Values) :=
  Pairs.bind Pairs.state fun _ _ hu => Pairs.pure (rel_peek? hu.stack)

end Translation

end Catena
