import Mathlib.Data.List.Basic
import Mathlib.Tactic.Common
import Intcode.FileTree
import Intcode.Proofs.Result
import Intcode.Proofs.Text.Utf8

namespace Intcode

namespace Text

variable {cs : List Char}

theorem unifyLineEnds_eq_self (h : '\r' ∉ cs) : unifyLineEnds cs = cs := by
  fun_induction unifyLineEnds cs
  case case1 => rfl
  case case2 => simp at h
  case case3 c cs _ hi =>
    rw [List.mem_cons, not_or] at h
    rw [if_neg (Ne.symm h.left), hi h.right]

end Text

namespace FileTree

variable {t t' : FileTree} {p : Path} {e : Entry} {here place : List String}

theorem isPrefixOf_eq_false (h : t.entry? place ≠ some .directory) :
    place.isPrefixOf t.workingDirectory = false := by
  by_contra hp
  rw [ entry?, if_pos (eq_true_of_ne_false hp)] at h
  exact h rfl

theorem entry?_put_self (h : t.entry? place ≠ some .directory) (e : Entry) :
    FileTree.entry? (t.put place e) place = some e := by
  simp [ entry?, put, isPrefixOf_eq_false h]

theorem lookup_filter (h : here ≠ place) (es : List (List String × Entry)) :
    (es.filter fun (p, _) => p ≠ place).lookup here = es.lookup here := by
  induction es
  case nil => rfl
  case cons x es hi =>
    obtain ⟨p, e⟩ := x
    by_cases hp : p = place
    case pos =>
      have hb : (here == p) = false := by simpa [hp] using h
      rw [List.filter_cons_of_neg (by simpa using hp), List.lookup_cons, hb, hi]
    case neg =>
      rw [List.filter_cons_of_pos (by simpa using hp), List.lookup_cons, List.lookup_cons, hi]

theorem entry?_put_of_ne (h : here ≠ place) (e : Entry) :
    FileTree.entry? (t.put place e) here = t.entry? here := by
  have hb : (here == place) = false := by simpa using h
  rw [ entry?, entry?, put, List.lookup_cons, hb, lookup_filter h]

theorem walk_cons_eq_ok_iff {part : String} {parts : List String} :
    t.walk here (part :: parts) = .ok place ↔
      t.entry? here = some .directory ∧ part.utf8ByteSize ≤ nameLimit ∧
        t.walk (enter here part) parts = .ok place := by
  rw [walk]
  split
  case h_1 he => simp [he]
  case h_2 he => simp [he]
  case h_3 he =>
    split
    case isTrue hl  => simp [Nat.not_le.mpr hl]
    case isFalse hl => simp [he, Nat.not_lt.mp hl]

-- There are only directories on the way to a file, so none of them is changed with it.
theorem walk_put {parts : List String} (hw : t.walk here parts = .ok place)
    (h : t.entry? place ≠ some .directory) (e : Entry) :
    (t.put place e).walk here parts = .ok place := by
  induction parts generalizing here
  case nil => exact hw
  case cons part parts hi =>
    have ⟨hd, hl, hw⟩ := walk_cons_eq_ok_iff.mp hw
    have hne : here ≠ place := fun he => h (he ▸ hd)
    rw [walk_cons_eq_ok_iff, entry?_put_of_ne hne]
    exact ⟨hd, hl, hi hw⟩

theorem locate_eq_ok_iff :
    t.locate p = .ok place ↔
      hasNull p.text = false ∧ p.text.utf8ByteSize ≤ pathLimit ∧
        t.walk (t.start p) p.parts = .ok place := by
  unfold locate
  split
  case isTrue hn => simp [hn]
  case isFalse hn =>
    split
    case isTrue hl => simp; omega
    case isFalse hl =>
      cases t.walk (t.start p) p.parts <;> simp_all [Except.mapError]

theorem locate_put (hl : t.locate p = .ok place) (h : t.entry? place ≠ some .directory)
    (e : Entry) : (t.put place e).locate p = .ok place := by
  have ⟨hn, hs, hw⟩ := locate_eq_ok_iff.mp hl
  exact locate_eq_ok_iff.mpr ⟨hn, hs, walk_put hw h e⟩

theorem writeText_eq_ok_iff {s : String} :
    t.writeText p s = .ok t' ↔
      ∃ place, t.locate p = .ok place ∧ t.entry? place ≠ some .directory ∧
        t' = t.put place (.file s.toUTF8.data.toList) := by
  rw [writeText, Result.bind_eq_ok_iff]
  refine exists_congr fun place => and_congr_right fun _ => ?_
  split
  case h_1 he => simp [he]
  case h_2 he => simp [he, eq_comm]
  case h_3 he => simp [he, eq_comm]

theorem readBytes_of_find {bytes : List UInt8} (h : t.find p = .ok (.file bytes)) :
    t.readBytes p = .ok bytes := by
  rw [readBytes, h]
  rfl

theorem readText_of_find {s : String} (h : t.find p = .ok (.file s.toUTF8.data.toList)) :
    t.readText p = .ok (.ofList (Text.unifyLineEnds s.toList)) := by
  rw [readText, readBytes_of_find h, Result.ok_bind, Text.decodeUtf8_toUTF8]
  rfl

theorem readText_writeText {s : String} (h : t.writeText p s = .ok t') (hr : '\r' ∉ s.toList) :
    t'.readText p = .ok s := by
  obtain ⟨place, hl, hd, rfl⟩ := writeText_eq_ok_iff.mp h
  have hf : (t.put place (.file s.toUTF8.data.toList)).find p =
      .ok (.file s.toUTF8.data.toList) := by
    rw [find, locate_put hl hd, Result.ok_bind, entry?_put_self hd]
    rfl
  rw [readText_of_find hf, Text.unifyLineEnds_eq_self hr, String.ofList_toList]

inductive Unreadable (t : FileTree) (p : Path) : Prop
  | missing {e : Error} (h : t.find p = .error e)
  | directory (h : t.find p = .ok .directory)
  | malformed {bytes : List UInt8} (h : t.find p = .ok (.file bytes))
    (hs : ∀ s : String, s.toUTF8.data.toList ≠ bytes)

theorem unreadable_iff : t.Unreadable p ↔ ∃ e, t.readText p = .error e := by
  constructor
  case mp =>
    intro h
    cases h
    case missing e h => exact ⟨e, by rw [readText, readBytes, h]; rfl⟩
    case directory h => exact ⟨.obstacle .isDirectory p, by rw [readText, readBytes, h]; rfl⟩
    case malformed bytes h hs =>
      rw [readText, readBytes_of_find h, Result.ok_bind]
      cases hd : Text.decodeUtf8 bytes
      case error e => exact ⟨.malformed e, rfl⟩
      case ok cs   => exact absurd (Text.decodeUtf8_eq_ok_iff.mp hd) (hs _)
  case mpr =>
    intro ⟨e, he⟩
    match hf : t.find p with
    | .error _       => exact .missing hf
    | .ok .directory => exact .directory hf
    | .ok (.file _)  =>
      refine .malformed hf fun s hs => ?_
      rw [readText_of_find (hs ▸ hf)] at he
      simp at he

end FileTree
end Intcode
