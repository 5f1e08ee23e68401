import CanisterShell.File.Disk
import CanisterShell.Proofs.Text.Utf8

/-!
# What is written is read

A file that has been written is read back at the same path (`Disk.read_write`): the way to it leads
through directories only, and writing puts no file in the place of a directory.
-/

namespace CanisterShell

namespace File.Disk

variable {d : Disk}

theorem follow_file {target : List String} {bytes : Bytes} (h : d.node? target ≠ some .directory)
    {names at_ : List String} (hfollow : d.follow at_ names = .ok target) :
    { d with nodes := (target, .file bytes) :: d.nodes }.follow at_ names = .ok target := by
  induction names generalizing at_ with
  | nil => exact hfollow
  | cons name rest ih =>
    rw [follow] at hfollow ⊢
    split at hfollow
    case h_1 => cases hfollow
    case h_2 => cases hfollow
    case h_3 hdir =>
      have hne : target ≠ at_ := by
        rintro rfl
        exact h hdir
      have hsame : { d with nodes := (target, .file bytes) :: d.nodes }.node? at_
          = some .directory := by
        rw [← hdir, node?, node?]
        simp [hne]
      rw [hsame]
      dsimp only
      split at hfollow
      case isTrue => cases hfollow
      case isFalse hlen =>
        rw [if_neg hlen]
        exact ih hfollow

theorem follow_eq {at_ names target : List String} (hnames : ".." ∉ names)
    (h : d.follow at_ names = .ok target) : target = at_ ++ names := by
  induction names generalizing at_ with
  | nil =>
    cases h
    exact (List.append_nil _).symm
  | cons name rest ih =>
    obtain ⟨hname, hrest⟩ := not_or.mp (mt List.mem_cons.mpr hnames)
    rw [follow] at h
    split at h
    case h_1 => cases h
    case h_2 => cases h
    case h_3 =>
      split at h
      case isTrue => cases h
      case isFalse =>
        rw [Path.descend, if_neg (Ne.symm hname)] at h
        rw [ih hrest h, List.append_assoc, List.singleton_append]

theorem mem_nodes_of_read {p : Path} {bytes : Bytes} (hroot : p.root = "/") (hparts : ".." ∉ p.parts)
    (h : d.read p = .ok bytes) : p.parts ∈ d.nodes.map (·.1) := by
  have habsolute : p.isAbsolute = true := by simp [Path.isAbsolute, hroot]
  rw [read, locate, if_pos habsolute] at h
  split at h
  case h_1 => cases h
  case h_2 target hfollow =>
    obtain rfl := follow_eq hparts hfollow
    cases hnode : d.node? ([] ++ p.parts) with
    | none =>
      rw [hnode] at h
      cases h
    | some node =>
      rw [node?] at hnode
      split at hnode
      case isTrue =>
        rw [node?, if_pos ‹_›] at h
        cases h
      case isFalse =>
        obtain ⟨n, hn, -⟩ := Option.map_eq_some_iff.mp hnode
        have hparts : n.1 = p.parts := by simpa using List.find?_some hn
        exact hparts ▸ List.mem_map_of_mem (f := (·.1)) (List.mem_of_find?_eq_some hn)

/-- What has been written is read. -/
theorem read_write {d' : Disk} {p : Path} {bytes : Bytes} (h : d.write p bytes = .ok d') :
    d'.read p = .ok bytes := by
  rw [write, update] at h
  split at h
  case h_1 => cases h
  case h_2 target hlocate =>
    have hfile : d.node? target ≠ some .directory
        ∧ d' = { d with nodes := (target, .file bytes) :: d.nodes } := by
      split at h
      case h_1 => cases h
      case h_2 hnode =>
        cases h
        exact ⟨by rw [hnode]; nofun, rfl⟩
      case h_3 hnode =>
        cases h
        exact ⟨by rw [hnode]; nofun, rfl⟩
    obtain ⟨hnode, rfl⟩ := hfile
    have hroot : ¬target.isPrefixOf d.cwd = true := fun hprefix =>
      hnode (by rw [node?, if_pos hprefix])
    have hthere : { d with nodes := (target, .file bytes) :: d.nodes }.node? target
        = some (.file bytes) := by
      rw [node?, if_neg hroot]
      simp
    have hway : { d with nodes := (target, .file bytes) :: d.nodes }.locate p = .ok target :=
      follow_file hnode hlocate
    rw [read, hway]
    dsimp only
    rw [hthere]

end File.Disk

theorem Text.unifyNewlines_eq {cs : List Char} (h : '\r' ∉ cs) : unifyNewlines cs = cs := by
  induction cs with
  | nil => rfl
  | cons c cs ih =>
    have hc : c ≠ '\r' := by
      rintro rfl
      exact h (.head _)
    rw [unifyNewlines, ih fun hm => h (.tail _ hm)]
    · exact fun _ hr _ => hc hr
    · exact hc

theorem File.Disk.textOf?_encode {text : String} (h : '\r' ∉ text.toList) :
    textOf? (Utf8.encode text) = some text := by
  rw [textOf?, Utf8.decode?_encode, Option.map_some, Text.unifyNewlines_eq h, String.ofList_toList]

end CanisterShell
