import Intcode.Proofs.FileTree

namespace Intcode

namespace Path

variable {d p : Path}

structure LeadsTo (d p : Path) : Prop where
  anchor : d.anchor = p.anchor
  parts  : d.parts <+: p.parts

theorem leadsTo_refl (p : Path) : p.LeadsTo p :=
  ⟨rfl, List.prefix_refl _⟩

theorem LeadsTo.of_parent (h : d.LeadsTo p.parent) : d.LeadsTo p :=
  ⟨h.anchor, h.parts.trans (List.dropLast_prefix _)⟩

theorem LeadsTo.exists_parts (h : d.LeadsTo p.parent) (hp : p.parts ≠ []) :
    ∃ below, below ≠ [] ∧ p.parts = d.parts ++ below := by
  obtain ⟨below, hb⟩ := h.parts
  refine ⟨below ++ [p.parts.getLast hp], by simp, ?_⟩
  calc
    p.parts
    _ = p.parent.parts ++ [p.parts.getLast hp]        := (List.dropLast_concat_getLast hp).symm
    _ = d.parts ++ (below ++ [p.parts.getLast hp])    := by rw [←hb, List.append_assoc]

end Path

namespace FileTree

variable {t t₀ t' : FileTree} {p d : Path} {here place : List String} {s : String}

theorem place_congr (h : t'.workingDirectory = t.workingDirectory) (p : Path) :
    t'.place p = t.place p := by
  rw [FileTree.place, FileTree.place, start, start, h]

theorem place_of_walk {parts : List String} (h : t.walk here parts = .ok place) :
    place = parts.foldl enter here := by
  induction parts generalizing here
  case nil                => exact (Except.ok.inj h).symm
  case cons part parts hi => exact hi (walk_cons_eq_ok_iff.mp h).right.right

theorem place_of_locate (h : t.locate p = .ok place) : place = t.place p :=
  place_of_walk (locate_eq_ok_iff.mp h).right.right

theorem directory_of_walk {above below : List String} (hb : below ≠ [])
    (h : t.walk here (above ++ below) = .ok place) :
    t.entry? (above.foldl enter here) = some .directory := by
  induction above generalizing here
  case nil =>
    obtain _ | ⟨part, below⟩ := below
    case nil  => contradiction
    case cons => exact (walk_cons_eq_ok_iff.mp h).left
  case cons _ above hi => exact hi (walk_cons_eq_ok_iff.mp h).right.right

theorem entry?_start (t : FileTree) (p : Path) : t.entry? (t.start p) = some .directory := by
  have hp : (t.start p).isPrefixOf t.workingDirectory = true := by
    unfold start
    split <;> simp
  rw [ entry?, if_pos hp]

structure Made (t t' : FileTree) (p : Path) (place : List String) : Prop where
  path   : ∃ d : Path, d.LeadsTo p ∧ t.place d = place
  before : t.entry? place = none
  after  : t'.entry? place = some .directory

structure Makes (t t' : FileTree) (p : Path) : Prop where
  workingDirectory : t'.workingDirectory = t.workingDirectory
  entry            : ∀ place, t'.entry? place = t.entry? place ∨ Made t t' p place

namespace Makes

theorem refl (t : FileTree) (p : Path) : Makes t t p :=
  ⟨rfl, fun _ => .inl rfl⟩

theorem trans (h₁ : Makes t t₀ p) (h₂ : Makes t₀ t' p) : Makes t t' p where
  workingDirectory := h₂.workingDirectory.trans h₁.workingDirectory
  entry place := by
    obtain he₂ | ⟨⟨d, hd, hp⟩, before, after⟩ := h₂.entry place
    case inl =>
      obtain he₁ | ⟨path, before, after⟩ := h₁.entry place
      case inl => exact .inl (he₂.trans he₁)
      case inr => exact .inr ⟨path, before, he₂.trans after⟩
    case inr =>
      obtain he₁ | m₁ := h₁.entry place
      case inl =>
        rw [place_congr h₁.workingDirectory] at hp
        exact .inr ⟨⟨d, hd, hp⟩, he₁ ▸ before, after⟩
      case inr => simp [m₁.after] at before

theorem of_parent (h : Makes t t' p.parent) : Makes t t' p where
  workingDirectory := h.workingDirectory
  entry place := (h.entry place).imp_right fun ⟨⟨d, hd, hp⟩, before, after⟩ =>
    ⟨⟨d, hd.of_parent, hp⟩, before, after⟩

theorem of_makeDirectory (h : t.makeDirectory p = .ok t') : Makes t t' p := by
  obtain ⟨place, hl, h⟩ := Result.bind_eq_ok_iff.mp h
  split at h
  case h_2 => simp at h
  case h_1 he =>
    obtain rfl := Except.ok.inj h
    refine ⟨rfl, fun here => ?_⟩
    by_cases hh : here = place
    case neg => exact .inl (entry?_put_of_ne hh _)
    case pos =>
      subst hh
      have hn : t.entry? here ≠ some .directory := by simp [he]
      exact .inr ⟨⟨p, p.leadsTo_refl, (place_of_locate hl).symm⟩, he, entry?_put_self hn _⟩

theorem makeOrKeepDirectory (t : FileTree) (p : Path) : Makes t (t.makeOrKeepDirectory p).1 p := by
  unfold FileTree.makeOrKeepDirectory
  split
  case h_1 h => exact of_makeDirectory h
  case h_2   => exact refl t p
  case h_3   => exact refl t p

-- The recursion goes up the path, and each directory is made when those above it are there.
theorem ensureDirectory (t : FileTree) (p : Path) (n : Nat) :
    Makes t (t.ensureDirectory p n).1 p := by
  induction n generalizing p
  case zero => exact makeOrKeepDirectory t p
  case succ n hi =>
    have above := (hi p.parent).of_parent
    unfold FileTree.ensureDirectory
    split
    case h_2 => exact makeOrKeepDirectory t p
    case h_1 =>
      split
      case h_1 t₀ he =>
        rw [he] at above
        exact above.trans (makeOrKeepDirectory t₀ p)
      case h_2 he =>
        rw [he] at above
        exact above

end Makes

-- A text is in the file at `p`, which lies in directories and is not in place of one. Nothing else
-- is changed but that directories above it were made.
structure Writes (t t' : FileTree) (p : Path) (s : String) : Prop where
  workingDirectory : t'.workingDirectory = t.workingDirectory
  before           : t.entry? (t.place p) ≠ some .directory
  after            : t'.entry? (t.place p) = some (.file s.toUTF8.data.toList)
  above            : ∀ d : Path, d.LeadsTo p.parent → t'.entry? (t.place d) = some .directory
  entry            : ∀ place ≠ t.place p,
    t'.entry? place = t.entry? place ∨ Made t t' p.parent place

theorem directory_of_leadsTo (hl : t.locate p = .ok (t.place p))
    (hn : t.entry? (t.place p) ≠ some .directory) (hd : d.LeadsTo p.parent) :
    t.entry? (t.place d) = some .directory := by
  have hp : p.parts ≠ [] := by
    intro hp
    rw [FileTree.place, hp] at hn
    exact hn (entry?_start t p)
  obtain ⟨below, hb, he⟩ := hd.exists_parts hp
  have hw := (locate_eq_ok_iff.mp hl).right.right
  rw [he] at hw
  have hs : t.start d = t.start p := by rw [start, start, hd.anchor, Path.parent]
  rw [FileTree.place, hs]
  exact directory_of_walk hb hw

theorem Makes.writes (hm : Makes t t₀ p.parent) (hw : t₀.writeText p s = .ok t') :
    Writes t t' p s := by
  obtain ⟨place, hl, hn, rfl⟩ := writeText_eq_ok_iff.mp hw
  obtain rfl := place_of_locate hl
  have hp := place_congr hm.workingDirectory
  have kept {here : List String} (hh : here ≠ t.place p) :
      FileTree.entry? (t₀.put (t₀.place p) (.file s.toUTF8.data.toList)) here = t₀.entry? here :=
    entry?_put_of_ne (by rwa [hp]) _
  refine ⟨hm.workingDirectory, ?before, ?after, ?above, ?entry⟩
  case before =>
    intro hd
    rw [hp] at hn
    obtain he | made := hm.entry (t.place p)
    case inl => exact hn (he.trans hd)
    case inr => exact hn made.after
  case after =>
    rw [←hp]
    exact entry?_put_self hn _
  case above =>
    intro d hd
    have he := directory_of_leadsTo hl hn hd
    rw [hp] at he hn
    exact (kept fun h => hn (h ▸ he)).trans he
  case entry =>
    intro here hh
    rw [kept hh]
    exact (hm.entry here).imp_right fun ⟨path, before, after⟩ =>
      ⟨path, before, (kept hh).trans after⟩

end FileTree
end Intcode
