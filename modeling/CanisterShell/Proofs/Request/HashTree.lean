import CanisterShell.Proofs.Attempt
import CanisterShell.Request.HashTree
import Mathlib.Data.List.Nodup
import Mathlib.Logic.Relation

/-!
# What a hash tree holds

A path is looked up in a tree in which no label stands twice on a level.  It is found if and only if
it leads to a leaf, and that is so in every arrangement of the forks and whatever is pruned beside
the path (`lookup_finds`).  The tree of nodes stands beside its numbered lists; each function that
reads these is brought to one on nodes first.
-/

namespace CanisterShell.HashTree

inductive Tree where
  | empty
  | fork (left right : Tree)
  | labelled (label : Bytes) (sub : Tree)
  | leaf (content : Bytes)
  | pruned (hash : Bytes)

/-- A step from a node to one below it. -/
inductive Turn where
  | left
  | right
  | under

namespace Tree

/-- The numbered list that stands for a tree. -/
def toDatum : Tree → Datum
  | empty => .list [.int 0]
  | fork left right => .list [.int 1, left.toDatum, right.toDatum]
  | labelled label sub => .list [.int 2, .bytes label, sub.toDatum]
  | leaf content => .list [.int 3, .bytes content]
  | pruned hash => .list [.int 4, .bytes hash]

/-- The labels of a level, which are those that forks lead to. -/
def labels : Tree → List Bytes
  | fork left right => left.labels ++ right.labels
  | labelled label _ => [label]
  | empty | leaf _ | pruned _ => []

/-- No label stands twice on a level. -/
def Distinct : Tree → Prop
  | fork left right => (left.labels ++ right.labels).Nodup ∧ left.Distinct ∧ right.Distinct
  | labelled _ sub => sub.Distinct
  | empty | leaf _ | pruned _ => True

instance decidableDistinct : (t : Tree) → Decidable t.Distinct
  | fork left right =>
    have := decidableDistinct left
    have := decidableDistinct right
    inferInstanceAs (Decidable (_ ∧ _ ∧ _))
  | labelled _ sub => decidableDistinct sub
  | empty | leaf _ | pruned _ => isTrue trivial

/-- A path of labels leads by some turns from a tree to one in it; there may be forks in front of
each label. -/
inductive Leads : List Bytes → List Turn → Tree → Tree → Prop
  | here (t : Tree) : Leads [] [] t t
  | left {label path turns left goal} (h : Leads (label :: path) turns left goal) (right : Tree) :
    Leads (label :: path) (.left :: turns) (fork left right) goal
  | right {label path turns right goal} (left : Tree) (h : Leads (label :: path) turns right goal) :
    Leads (label :: path) (.right :: turns) (fork left right) goal
  | under {path turns sub goal} (label : Bytes) (h : Leads path turns sub goal) :
    Leads (label :: path) (.under :: turns) (labelled label sub) goal

/-- A path of labels leads from a tree to one in it. -/
def LeadsTo (path : List Bytes) (t goal : Tree) : Prop := ∃ turns, Leads path turns t goal

/-- A tree with a stub in place of what the turns lead to. -/
def prune (hash : Bytes) : List Turn → Tree → Tree
  | [], _ => pruned hash
  | .left :: turns, fork left right => fork (prune hash turns left) right
  | .right :: turns, fork left right => fork left (prune hash turns right)
  | .under :: turns, labelled label sub => labelled label (prune hash turns sub)
  | _, t => t

/-- The path does not go by where the turns lead to. -/
def OffPath (path : List Bytes) (turns : List Turn) (t : Tree) : Prop :=
  ∀ way goal, Leads path way t goal → ¬turns <+: way

/-- Forks that are swapped, or grouped in the other way, anywhere in a tree. -/
inductive Rearranged : Tree → Tree → Prop
  | swap (a b : Tree) : Rearranged (fork a b) (fork b a)
  | assoc (a b c : Tree) : Rearranged (fork (fork a b) c) (fork a (fork b c))
  | assoc_symm (a b c : Tree) : Rearranged (fork a (fork b c)) (fork (fork a b) c)
  | left {left left'} (h : Rearranged left left') (right : Tree) :
    Rearranged (fork left right) (fork left' right)
  | right {right right'} (left : Tree) (h : Rearranged right right') :
    Rearranged (fork left right) (fork left right')
  | under {sub sub'} (label : Bytes) (h : Rearranged sub sub') :
    Rearranged (labelled label sub) (labelled label sub')

/-- What may be done to a tree without a change to what a path finds. -/
inductive Revised (path : List Bytes) : Tree → Tree → Prop
  | rearranged {t t'} (h : Rearranged t t') : Revised path t t'
  | pruned {t} (hash : Bytes) {turns} (h : OffPath path turns t) :
    Revised path t (t.prune hash turns)

/-! ## Where a path leads -/

section

variable {label label' : Bytes} {path : List Bytes} {t sub goal left right : Tree}

theorem leadsTo_nil : LeadsTo [] t goal ↔ t = goal := by
  constructor
  · rintro ⟨_, h⟩
    cases h
    rfl
  · rintro rfl
    exact ⟨[], .here t⟩

theorem leadsTo_fork : LeadsTo (label :: path) (fork left right) goal ↔
    LeadsTo (label :: path) left goal ∨ LeadsTo (label :: path) right goal := by
  constructor
  · rintro ⟨_, h⟩
    cases h with
    | left h => exact .inl ⟨_, h⟩
    | right _ h => exact .inr ⟨_, h⟩
  · rintro (⟨turns, h⟩ | ⟨turns, h⟩)
    · exact ⟨_, h.left right⟩
    · exact ⟨_, h.right left⟩

theorem leadsTo_labelled : LeadsTo (label :: path) (labelled label' sub) goal ↔
    label' = label ∧ LeadsTo path sub goal := by
  constructor
  · rintro ⟨_, h⟩
    cases h with
    | under _ h => exact ⟨rfl, _, h⟩
  · rintro ⟨rfl, turns, h⟩
    exact ⟨_, h.under label'⟩

theorem LeadsTo.mem_labels (h : LeadsTo (label :: path) t goal) : label ∈ t.labels := by
  induction t with
  | fork left right ihLeft ihRight =>
    rw [leadsTo_fork] at h
    exact List.mem_append.mpr (h.imp ihLeft ihRight)
  | labelled label' sub ih =>
    rw [leadsTo_labelled] at h
    exact List.mem_singleton.mpr h.1.symm
  | empty | leaf _ | pruned _ =>
    obtain ⟨_, h⟩ := h
    cases h

end

/-! ## Reading nodes -/

/-- The tree under a label of the level; of several the leftmost one. -/
def child? (label : Bytes) : Tree → Option Tree
  | fork left right => (left.child? label).or (right.child? label)
  | labelled label' sub => if label' = label then some sub else none
  | empty | leaf _ | pruned _ => none

/-- What a path leads to. -/
def find? : List Bytes → Tree → Option Tree
  | [], t => some t
  | label :: path, t => (t.child? label).bind (find? path)

def content? : Tree → Option Bytes
  | leaf content => some content
  | _ => none

theorem child?_eq_none_iff {label : Bytes} {t : Tree} :
    t.child? label = none ↔ label ∉ t.labels := by
  induction t with
  | fork left right ihLeft ihRight =>
    rw [child?, Option.or_eq_none_iff, ihLeft, ihRight, labels, List.mem_append, not_or]
  | labelled label' sub ih => simp [child?, labels, eq_comm]
  | empty | leaf _ | pruned _ => simp [child?, labels]

theorem Distinct.child {label : Bytes} {t sub : Tree} (ht : t.Distinct)
    (h : t.child? label = some sub) : sub.Distinct := by
  induction t with
  | fork left right ihLeft ihRight =>
    obtain ⟨-, hleft, hright⟩ := ht
    obtain h | ⟨-, h⟩ := Option.or_eq_some_iff.mp h
    · exact ihLeft hleft h
    · exact ihRight hright h
  | labelled label' sub' ih =>
    obtain ⟨-, rfl⟩ : label' = label ∧ sub' = sub := by simpa [child?] using h
    exact ht
  | empty | leaf _ | pruned _ => cases h

theorem Distinct.leadsTo_cons_iff {label : Bytes} {path : List Bytes} {t goal : Tree}
    (ht : t.Distinct) : LeadsTo (label :: path) t goal ↔
      ∃ sub, t.child? label = some sub ∧ LeadsTo path sub goal := by
  induction t with
  | fork left right ihLeft ihRight =>
    obtain ⟨hdistinct, hleft, hright⟩ := ht
    rw [leadsTo_fork, ihLeft hleft, ihRight hright, child?]
    cases hfound : left.child? label with
    | none => simp
    | some sub =>
      -- the label is on the left, and so it is not on the right
      have hmem : label ∈ left.labels := by
        by_contra hnot
        rw [child?_eq_none_iff.mpr hnot] at hfound
        cases hfound
      have hnone : right.child? label = none :=
        child?_eq_none_iff.mpr ((List.nodup_append'.mp hdistinct).2.2 hmem)
      simp [hnone]
  | labelled label' sub ih =>
    rw [leadsTo_labelled, child?]
    split <;> simp [*]
  | empty | leaf _ | pruned _ =>
    constructor
    · rintro ⟨_, h⟩
      cases h
    · rintro ⟨_, h, -⟩
      cases h

theorem Distinct.find?_eq_some_iff {path : List Bytes} {t goal : Tree} (ht : t.Distinct) :
    t.find? path = some goal ↔ LeadsTo path t goal := by
  induction path generalizing t with
  | nil => rw [find?, leadsTo_nil, Option.some.injEq]
  | cons label path ih =>
    rw [find?, Option.bind_eq_some_iff, ht.leadsTo_cons_iff]
    refine exists_congr fun sub => and_congr_right fun hsub => ?_
    exact ih (ht.child hsub)

theorem thaw_toDatum (t : Tree) : t.toDatum.thaw = t.toDatum := by
  induction t with
  | fork left right ihLeft ihRight =>
    simp only [toDatum, Datum.thaw, Datum.thawItems, ihLeft, ihRight]
  | labelled label sub ih => simp only [toDatum, Datum.thaw, Datum.thawItems, ih]
  | empty | leaf _ | pruned _ => rfl

theorem present?_toDatum (t : Tree) : present? t.toDatum = some t.toDatum := by
  cases t <;> rfl

theorem child?_toDatum (label : Bytes) (t : Tree) :
    HashTree.child? label t.toDatum = .ok ((t.child? label).map toDatum) := by
  induction t with
  | fork left right ihLeft ihRight =>
    have hmark : Datum.sameKey (.int 1) forkMark = true := rfl
    rw [toDatum, HashTree.child?, if_pos hmark, ihLeft, child?, Attempt.ok_bind]
    cases left.child? label with
    | none => exact ihRight
    | some sub => rfl
  | labelled label' sub ih =>
    have hfork : ¬Datum.sameKey (.int 2) forkMark = true := nofun
    have hmark : Datum.sameKey (.int 2) labelMark = true := rfl
    rw [toDatum, HashTree.child?, if_neg hfork, if_pos hmark, Datum.toBytes, Attempt.ok_bind,
      present?_toDatum, child?]
    split <;> rfl
  | empty | leaf _ | pruned _ => rfl

/-- The labels that stand in a path as texts or byte strings. -/
def Spells (path : List Datum) (labels : List Bytes) : Prop :=
  List.Forall₂ (fun d label => labelBytes d = .ok label) path labels

theorem subtree?_toDatum {path : List Datum} {labels : List Bytes} (h : Spells path labels)
    (t : Tree) : subtree? path t.toDatum = .ok ((t.find? labels).map toDatum) := by
  induction h generalizing t with
  | nil => rfl
  | @cons d label path labels hlabel _ ih =>
    rw [subtree?, hlabel, Attempt.ok_bind, child?_toDatum, Attempt.ok_bind, find?]
    cases t.child? label with
    | none => rfl
    | some sub => exact ih sub

theorem leaf?_toDatum (t : Tree) : leaf? t.toDatum = .ok t.content? := by
  cases t <;> rfl

theorem lookup_toDatum {d : Datum} {t : Tree} {path : List Datum} {labels : List Bytes}
    (hd : d.thaw = t.toDatum) (hpath : Spells path labels) :
    lookup d path = .ok ((t.find? labels).bind content?) := by
  rw [lookup, hd, subtree?_toDatum hpath, Attempt.ok_bind]
  cases t.find? labels with
  | none => rfl
  | some goal => exact leaf?_toDatum goal

theorem content?_eq_some_iff {t : Tree} {content : Bytes} :
    t.content? = some content ↔ t = leaf content := by
  cases t <;> simp [content?]

theorem Distinct.content_iff {t : Tree} (ht : t.Distinct) {path : List Bytes} {content : Bytes} :
    (t.find? path).bind content? = some content ↔ LeadsTo path t (leaf content) := by
  rw [← ht.find?_eq_some_iff, Option.bind_eq_some_iff]
  simp only [content?_eq_some_iff, exists_eq_right]

/-! ## Forks arranged otherwise -/

theorem Rearranged.labels_perm {t t' : Tree} (h : Rearranged t t') : t.labels.Perm t'.labels := by
  induction h with
  | swap a b => exact List.perm_append_comm
  | assoc a b c => exact .of_eq (List.append_assoc _ _ _)
  | assoc_symm a b c => exact .of_eq (List.append_assoc _ _ _).symm
  | left h right ih => exact ih.append_right _
  | right left h ih => exact ih.append_left _
  | under label h ih => exact .refl _

theorem Rearranged.distinct {t t' : Tree} (h : Rearranged t t') (ht : t.Distinct) :
    t'.Distinct := by
  induction h with
  | swap a b =>
    obtain ⟨hdistinct, ha, hb⟩ := ht
    exact ⟨List.perm_append_comm.nodup hdistinct, hb, ha⟩
  | assoc a b c =>
    obtain ⟨hdistinct, ⟨-, ha, hb⟩, hc⟩ := ht
    rw [labels, List.append_assoc] at hdistinct
    exact ⟨hdistinct, ha, hdistinct.of_append_right, hb, hc⟩
  | assoc_symm a b c =>
    obtain ⟨hdistinct, ha, -, hb, hc⟩ := ht
    rw [labels, ← List.append_assoc] at hdistinct
    exact ⟨hdistinct, ⟨hdistinct.of_append_left, ha, hb⟩, hc⟩
  | left h right ih =>
    obtain ⟨hdistinct, hleft, hright⟩ := ht
    exact ⟨(h.labels_perm.append_right _).nodup hdistinct, ih hleft, hright⟩
  | right left h ih =>
    obtain ⟨hdistinct, hleft, hright⟩ := ht
    exact ⟨(h.labels_perm.append_left _).nodup hdistinct, hleft, ih hright⟩
  | under label h ih => exact ih ht

theorem Rearranged.eq_leaf_iff {t t' : Tree} (h : Rearranged t t') {content : Bytes} :
    t = leaf content ↔ t' = leaf content := by
  cases h <;> exact ⟨nofun, nofun⟩

theorem Rearranged.leadsTo_iff {content : Bytes} {t t' : Tree} (h : Rearranged t t') :
    ∀ path, LeadsTo path t (leaf content) ↔ LeadsTo path t' (leaf content)
  | [] => by rw [leadsTo_nil, leadsTo_nil, h.eq_leaf_iff]
  | label :: path => by
    cases h with
    | swap a b => rw [leadsTo_fork, leadsTo_fork, or_comm]
    | assoc a b c => simp only [leadsTo_fork, or_assoc]
    | assoc_symm a b c => simp only [leadsTo_fork, or_assoc]
    | left h right => rw [leadsTo_fork, leadsTo_fork, h.leadsTo_iff]
    | right left h => rw [leadsTo_fork, leadsTo_fork, h.leadsTo_iff]
    | under label' h => rw [leadsTo_labelled, leadsTo_labelled, h.leadsTo_iff]

/-! ## Stubs beside the path -/

theorem labels_prune (hash : Bytes) (turns : List Turn) (t : Tree) :
    (t.prune hash turns).labels.Sublist t.labels := by
  fun_induction prune hash turns t with
  | case1 t => exact List.nil_sublist _
  | case2 turns left right ih => exact ih.append_right _
  | case3 turns left right ih => exact ih.append_left _
  | case4 turns label sub ih => exact .refl _
  | case5 turns t => exact .refl _

theorem Distinct.prune {t : Tree} (ht : t.Distinct) (hash : Bytes) (turns : List Turn) :
    (t.prune hash turns).Distinct := by
  fun_induction Tree.prune hash turns t with
  | case1 t => trivial
  | case2 turns left right ih =>
    obtain ⟨hdistinct, hleft, hright⟩ := ht
    exact ⟨hdistinct.sublist ((labels_prune ..).append_right _), ih hleft, hright⟩
  | case3 turns left right ih =>
    obtain ⟨hdistinct, hleft, hright⟩ := ht
    exact ⟨hdistinct.sublist ((labels_prune ..).append_left _), hleft, ih hright⟩
  | case4 turns label sub ih => exact ih ht
  | case5 turns t => exact ht

theorem not_prefix_of_cons {turn : Turn} {turns way : List Turn}
    (h : ¬turn :: turns <+: turn :: way) : ¬turns <+: way :=
  mt (fun hprefix => List.cons_prefix_cons.mpr ⟨rfl, hprefix⟩) h

theorem Leads.prune {path : List Bytes} {way turns : List Turn} {t : Tree} {content : Bytes}
    (h : Leads path way t (leaf content)) (hash : Bytes) (hturns : ¬turns <+: way) :
    Leads path way (t.prune hash turns) (leaf content) := by
  fun_induction Tree.prune hash turns t generalizing path way with
  | case1 t => exact absurd List.nil_prefix hturns
  | case2 turns left right ih =>
    cases h with
    | left h _ => exact (ih h (not_prefix_of_cons hturns)).left _
    | right _ h => exact h.right _
  | case3 turns left right ih =>
    cases h with
    | left h _ => exact h.left _
    | right _ h => exact (ih h (not_prefix_of_cons hturns)).right _
  | case4 turns label sub ih =>
    cases h with
    | under _ h => exact (ih h (not_prefix_of_cons hturns)).under _
  | case5 turns t => exact h

theorem Leads.of_prune {path : List Bytes} {way turns : List Turn} {t : Tree} {hash content : Bytes}
    (h : Leads path way (t.prune hash turns) (leaf content)) : Leads path way t (leaf content) := by
  fun_induction Tree.prune hash turns t generalizing path way with
  | case1 t => cases h
  | case2 turns left right ih =>
    cases h with
    | left h _ => exact (ih h).left _
    | right _ h => exact h.right _
  | case3 turns left right ih =>
    cases h with
    | left h _ => exact h.left _
    | right _ h => exact (ih h).right _
  | case4 turns label sub ih =>
    cases h with
    | under _ h => exact (ih h).under _
  | case5 turns t => exact h

theorem OffPath.leadsTo_iff {path : List Bytes} {turns : List Turn} {t : Tree}
    (h : OffPath path turns t) (hash content : Bytes) :
    LeadsTo path t (leaf content) ↔ LeadsTo path (t.prune hash turns) (leaf content) := by
  constructor
  · rintro ⟨way, hway⟩
    exact ⟨way, hway.prune hash (h way _ hway)⟩
  · rintro ⟨way, hway⟩
    exact ⟨way, hway.of_prune⟩

/-! ## Lookups -/

/-- Trees without a label twice that hold the same at the end of a path. -/
def Agree (path : List Bytes) (t t' : Tree) : Prop :=
  t'.Distinct ∧ ∀ content, LeadsTo path t (leaf content) ↔ LeadsTo path t' (leaf content)

theorem Distinct.revised {path : List Bytes} {t t' : Tree} (ht : t.Distinct)
    (h : Relation.ReflTransGen (Revised path) t t') : Agree path t t' := by
  induction h with
  | refl => exact ⟨ht, fun _ => .rfl⟩
  | tail _ hstep ih =>
    obtain ⟨hdistinct, hsame⟩ := ih
    cases hstep with
    | rearranged h => exact ⟨h.distinct hdistinct, fun c => (hsame c).trans (h.leadsTo_iff path)⟩
    | pruned hash h =>
      exact ⟨hdistinct.prune _ _, fun c => (hsame c).trans (h.leadsTo_iff hash c)⟩

end Tree

open CanisterShell.HashTree.Tree

/-- A path is looked up in a tree in which no label stands twice on a level: the content of a leaf
is found if and only if the path leads to that leaf.  The same is found when forks have been swapped
or grouped otherwise and when subtrees beside the path have been pruned. -/
theorem lookup_finds {d : Datum} {t : Tree} {path : List Datum} {labels : List Bytes}
    (hd : d.thaw = t.toDatum) (hpath : Spells path labels) (ht : t.Distinct) :
    (∃ found?, lookup d path = .ok found? ∧
      ∀ content, found? = some content ↔ LeadsTo labels t (.leaf content)) ∧
    ∀ d' t', d'.thaw = t'.toDatum → Relation.ReflTransGen (Revised labels) t t' →
      lookup d' path = lookup d path := by
  refine ⟨⟨_, lookup_toDatum hd hpath, fun content => ht.content_iff⟩, fun d' t' hd' hrevised => ?_⟩
  obtain ⟨hdistinct, hsame⟩ := ht.revised hrevised
  rw [lookup_toDatum hd hpath, lookup_toDatum hd' hpath]
  refine congrArg Except.ok (Option.ext fun content => ?_)
  rw [hdistinct.content_iff, ht.content_iff, hsame]

/-- The status in a tree that tells the time as well: it is found also when the forks have been
swapped and the time has been pruned. -/
theorem lookup_finds_status :
    let time : Tree := .labelled (Utf8.encode "time") (.leaf [1])
    let status : Tree := .labelled (Utf8.encode "request_status") (.labelled [7]
      (.fork (.labelled (Utf8.encode "reply") (.leaf [0]))
        (.labelled (Utf8.encode "status") (.leaf (Utf8.encode "replied")))))
    let t : Tree := .fork time status
    let t' : Tree := .fork status (.pruned [9])
    let path : List Datum := [.text "request_status", .bytes [7], .text "status"]
    let labels : List Bytes := [Utf8.encode "request_status", [7], Utf8.encode "status"]
    t.toDatum.thaw = t.toDatum ∧ Spells path labels ∧ t.Distinct ∧
      Relation.ReflTransGen (Revised labels) t t' ∧
      lookup t.toDatum path = .ok (some (Utf8.encode "replied")) ∧
      lookup t'.toDatum path = lookup t.toDatum path := by
  intro time status t t' path labels
  have hpath : Spells path labels := .cons rfl (.cons rfl (.cons rfl .nil))
  have hdistinct : t.Distinct := by decide
  have hleads : LeadsTo labels t (.leaf (Utf8.encode "replied")) :=
    ⟨_, .right _ (.under _ (.under _ (.right _ (.under _ (.here _)))))⟩
  have hoff : OffPath labels [.right] (.fork status time) := by
    intro way goal (h : Leads [_, _, _] way _ goal) hprefix
    cases h with
    | left h _ => exact absurd hprefix (by simp)
    | right _ h =>
      have hmem : Utf8.encode "request_status" ∈ time.labels := LeadsTo.mem_labels ⟨_, h⟩
      exact absurd hmem (by decide)
  have hrevised : Relation.ReflTransGen (Revised labels) t t' :=
    (Relation.ReflTransGen.single (.rearranged (.swap time status))).tail (.pruned [9] hoff)
  obtain ⟨⟨found?, hlookup, hfound⟩, hsame⟩ := lookup_finds (thaw_toDatum t) hpath hdistinct
  refine ⟨thaw_toDatum t, hpath, hdistinct, hrevised, ?_, ?_⟩
  · rw [hlookup, (hfound _).mpr hleads]
  · exact hsame _ t' (thaw_toDatum t') hrevised

end CanisterShell.HashTree
