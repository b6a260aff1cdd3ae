import AppendStore.Disk.Path

/-!
# Paths of names in a directory

Joining a plain name to a path puts the name behind those of the path and keeps
everything else (`Path.parts_join`, `Path.isAbsolute_join`, `Path.endsInSlash_join`).
Whether the file system takes the path depends on the length of the name alone
(`Path.refusal?_join`).
-/

namespace AppendStore

/-- A name of a file that means nothing else in a path. -/
structure PlainName (name : String) : Prop where
  nonempty : name.toList ≠ []
  slash : '/' ∉ name.toList
  dot : '.' ∉ name.toList
  nul : '\x00' ∉ name.toList

namespace Path

variable {dir : Path} {name : String}

def joint (dir : Path) : String := if dir.endsInSlash then "" else "/"

theorem text_join (hdir : dir.isEmpty = false) (name : String) :
    (dir.join name).text = dir.text ++ dir.joint ++ name := by
  rw [join, joint, hdir, Bool.false_or]
  split
  · rw [String.append_empty]
  · rfl

theorem toList_ne_nil (hdir : dir.isEmpty = false) : dir.text.toList ≠ [] := by
  intro h
  rw [isEmpty, h] at hdir
  cases hdir

theorem isAbsolute_join (hdir : dir.isEmpty = false) (name : String) :
    (dir.join name).isAbsolute = dir.isAbsolute := by
  rw [isAbsolute, isAbsolute, text_join hdir, String.toList_append, String.toList_append,
    List.append_assoc, List.head?_append]
  cases h : dir.text.toList with
  | nil => exact absurd h (toList_ne_nil hdir)
  | cons c cs => rfl

theorem endsInSlash_join (hdir : dir.isEmpty = false) (hname : PlainName name) :
    (dir.join name).endsInSlash = false := by
  rw [endsInSlash, text_join hdir, String.toList_append, List.getLast?_append]
  cases h : name.toList.getLast? with
  | none => exact absurd (List.getLast?_eq_none_iff.1 h) hname.nonempty
  | some c =>
    have hmem : c ∈ name.toList := List.mem_of_getLast? h
    have hne : c ≠ '/' := fun heq => hname.slash (heq ▸ hmem)
    rw [Option.some_or]
    simp [hne]

theorem parts_eq (p : Path) : p.parts = ((p.text.toList.splitOn '/').filter
    (!·.isEmpty)).reverse.map String.ofList := by
  rw [parts, List.map_reverse]

theorem parts_join (hdir : dir.isEmpty = false) (hname : PlainName name) :
    (dir.join name).parts = name :: dir.parts := by
  have hlast : name.toList.splitOn '/' = [name.toList] := List.splitOn_eq_singleton hname.slash
  have hkeep : [name.toList].filter (!·.isEmpty) = [name.toList] := by
    rw [List.filter_cons_of_pos, List.filter_nil]
    cases h : name.toList with
    | nil => exact absurd h hname.nonempty
    | cons c cs => rfl
  have hsplit : ((dir.join name).text.toList.splitOn '/').filter (!·.isEmpty) =
      (dir.text.toList.splitOn '/').filter (!·.isEmpty) ++ [name.toList] := by
    rw [text_join hdir, joint]
    by_cases hslash : dir.endsInSlash = true
    · have hend : dir.text.toList.getLast? = some '/' := of_decide_eq_true hslash
      obtain ⟨start, hstart⟩ := List.getLast?_eq_some_iff.1 hend
      rw [if_pos hslash, String.append_empty, String.toList_append, hstart, List.append_assoc,
        List.singleton_append, List.splitOn_append_cons_self, List.splitOn_append_cons_self, hlast,
        List.filter_append, List.filter_append, hkeep, List.splitOn_nil]
      simp
    · rw [if_neg hslash, String.toList_append, String.toList_append, List.append_assoc]
      change ((dir.text.toList ++ '/' :: name.toList).splitOn '/').filter _ = _
      rw [List.splitOn_append_cons_self, hlast, List.filter_append, hkeep]
  rw [parts_eq, parts_eq, hsplit, List.reverse_append, List.map_append, List.reverse_singleton,
    List.map_singleton, String.ofList_toList]
  rfl

/-- Whatever the directory is called, the innermost name is the one that was joined to it. -/
theorem exists_parts_join (dir : Path) (hname : PlainName name) :
    ∃ around, (dir.join name).parts = name :: around := by
  cases hdir : dir.isEmpty with
  | false => exact ⟨dir.parts, parts_join hdir hname⟩
  | true =>
    have hname' : (name.toList.splitOn '/').filter (!·.isEmpty) = [name.toList] := by
      rw [List.splitOn_eq_singleton hname.slash, List.filter_cons_of_pos, List.filter_nil]
      cases h : name.toList with
      | nil => exact absurd h hname.nonempty
      | cons c cs => rfl
    have htext : (dir.join name).text.toList = name.toList := by
      have hnil : dir.text.toList = [] := List.isEmpty_iff.1 hdir
      rw [join, hdir, Bool.true_or, if_pos rfl, String.toList_append, hnil, List.nil_append]
    refine ⟨[], ?_⟩
    rw [parts_eq, htext, hname', List.reverse_singleton, List.map_singleton, String.ofList_toList]

/-- Two names of one length are taken or refused alike. -/
theorem refusal?_join (hdir : dir.isEmpty = false) {other : String} (hname : PlainName name)
    (hother : PlainName other) (hlen : name.utf8ByteSize = other.utf8ByteSize) :
    (dir.join name).refusal? = (dir.join other).refusal? := by
  have hnul : ∀ {n : String}, PlainName n →
      ('\x00' ∈ (dir.join n).text.toList ↔ '\x00' ∈ (dir.text ++ dir.joint).toList) := by
    intro n hn
    rw [text_join hdir, String.toList_append, List.mem_append]
    exact or_iff_left hn.nul
  have hempty : ∀ {n : String}, PlainName n → (dir.join n).isEmpty = false := by
    intro n hn
    rw [isEmpty, text_join hdir, String.toList_append]
    cases h : n.toList with
    | nil => exact absurd h hn.nonempty
    | cons c cs => simp
  have hbytes : (dir.join name).text.utf8ByteSize = (dir.join other).text.utf8ByteSize := by
    rw [text_join hdir name, text_join hdir other, String.utf8ByteSize_append, hlen,
      ← String.utf8ByteSize_append]
  rw [refusal?, refusal?, hempty hname, hempty hother, hbytes]
  simp only [hnul hname, hnul hother]

end Path

end AppendStore
