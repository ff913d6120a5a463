import Catena.Proofs.Linking.Order

/-!
# The nodes of linked programs

Linking reads nodes and puts modules between them, and it does nothing else to nodes. So what holds of
every node that is read, and of modules, holds of every node of a linked program
(`meets_link_allIn`).
-/

namespace Catena

namespace Linking

section AllIn

variable {fs : FileSystem} {library : String} {P : Node NodeId → Prop}
  (hread : ∀ source p n, program? source = some p → Node.AllIn P (Node.numberAll n p.nodes).1)
  (hmodule : ∀ m info nodes, P (.program m info nodes))

section Splice

variable {load : Path → Origin → Linking (Program NodeId)} {unit : SourceUnit}
  (hload : ∀ path origin l, Meets (load path origin) l (fun p _ => Node.AllIn P p.nodes) Anyhow)

include hload

theorem meets_resolve_allIn {position : Position} {request : Import} {l : Linker} :
    Meets (resolve fs library load unit position request) l
      (fun found _ => ∀ p, found = some p → Node.AllIn P p.nodes) Anyhow := by
  refine meets_resolve ?alone ?missing ?circle ?known ?fresh
  case alone => exact fun _ _ => nofun
  case missing => exact fun _ _ _ _ _ _ _ _ _ _ => trivial
  case circle => exact fun _ _ _ _ _ _ _ _ => trivial
  case known => exact fun _ _ _ _ _ _ => nofun
  case fresh =>
    intro path origin _ _ _
    refine (hload path origin (connected unit path l)).mono ?_ fun _ _ he => he
    rintro p _ hp _ ⟨⟩
    exact hp

include hmodule

theorem meets_splice_allIn {nodes : Code} {l : Linker} (hnodes : Node.AllIn P nodes) :
    Meets (splice (resolve fs library load unit) nodes) l (fun code _ => Node.AllIn P code)
      Anyhow := by
  induction nodes generalizing l with
  | nil => exact trivial
  | cons node rest ih =>
    obtain ⟨hnode, hrest⟩ := hnodes
    cases himport : node.import? with
    | none =>
      refine meets_splice_node himport ((ih hrest).mono ?_ fun _ _ he => he)
      exact fun code _ hcode => ⟨hnode, hcode⟩
    | some request =>
      obtain ⟨m, rfl⟩ := Node.import?_eq_some_iff.1 himport
      refine meets_splice_importing ((meets_resolve_allIn hload).mono ?_ fun _ _ he => he)
      intro found _ hfound id _ _
      refine (ih hrest).mono ?_ fun _ _ he => he
      intro others _ hothers
      cases found with
      | none => exact ⟨hnode, hothers⟩
      | some p => exact ⟨⟨hmodule _ _ _, hfound p rfl⟩, hnode, hothers⟩

include hread

theorem meets_linkText_allIn {source : String} {l : Linker} :
    Meets (linkText fs library load unit source) l (fun p _ => Node.AllIn P p.nodes) Anyhow := by
  refine meets_linkText (fun p n l₁ hp _ => ?_) fun _ _ _ _ _ => trivial
  refine (meets_splice_allIn hmodule hload (hread source p n hp)).mono ?_ fun _ _ he => he
  exact fun nodes _ hnodes _ _ => hnodes

end Splice

include hread hmodule

theorem meets_linkFile_allIn (fuel : Nat) (path : Path) (origin : Origin) (l : Linker) :
    Meets (linkFile fs library fuel path origin) l (fun p _ => Node.AllIn P p.nodes) Anyhow := by
  induction fuel generalizing path origin l with
  | zero => exact trivial
  | succ fuel ih =>
    unfold linkFile
    split
    · exact trivial
    · exact meets_linkText_allIn hread hmodule ih

/-- **What holds of nodes that are read and of modules holds of all linked nodes**, whatever the linker
knows already. -/
theorem meets_link_allIn (start : Start) (l : Linker) :
    Meets (start.link fs library) l (fun p _ => Node.AllIn P p.nodes) Anyhow := by
  cases start with
  | file path => exact Meets.bind (meets_linkFile_allIn hread hmodule (fuelFor fs) path .user l)
  | text unit source =>
    exact meets_linkText_allIn hread hmodule fun path origin l =>
      meets_linkFile_allIn hread hmodule (fuelFor fs) path origin l

end AllIn

end Linking

end Catena
