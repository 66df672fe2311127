import Fenceline.Proofs.Location.Mark
import Fenceline.Proofs.Path.Spelling
import Fenceline.Proofs.Sample.Extraction

/-!
# References are read back as they were written

The lines of a sample are written in a mark, behind its document's path where it is referred to and behind the label in
the name of the file that it is stored in. Two patterns read the mark back: the one cuts a whole path into the document
and the lines, and the other takes the mark from the path's end (`Decodes`).

**The law** (`reference_decodes`): a reference, with an extension or without one, and the name and the path of a stored
sample's file are read back as they were written, and in no other way (`Decodes.unique`). The path may look like a
reference itself, for a mark that it ends in does not reach up to the end any more. It may not go over several lines,
as no pattern reads a path across a line feed.
-/

namespace Fenceline

open Reference

namespace Reference

/-- **A text that is read back** as a path and the first and the last line of a mark, and that is the path without its
mark. -/
structure Decodes (t path : Text) (first last : Int) : Prop where
  read : ∃ m, whole.matchStart t = some m ∧ m.text = t ∧ m.get? "file" = some path ∧
    m.get? "start" = some (Text.ofInt first) ∧ m.get? "end" = some (Text.ofInt last)
  bare : unmarked t = path

/-- **A text is read back in one way**: the path and the lines are the text's. -/
theorem Decodes.unique {t path other : Text} {first last first' last' : Int} (h : Decodes t path first last)
    (h' : Decodes t other first' last') : path = other ∧ first = first' ∧ last = last' := by
  obtain ⟨m, hm, -, hfile, hstart, hend⟩ := h.read
  obtain ⟨n, hn, -, hfile', hstart', hend'⟩ := h'.read
  obtain rfl := Option.some.inj (hm.symm.trans hn)
  exact ⟨Option.some.inj (hfile.symm.trans hfile'), Text.ofInt_inj (Option.some.inj (hstart.symm.trans hstart')),
    Text.ofInt_inj (Option.some.inj (hend.symm.trans hend'))⟩

/-- **A path with the mark of lines is read back**, whatever it ends in itself. -/
theorem decodes_append_mark {path ending : Text} (hpath : '\n' ∉ path) (hending : Ending ending) (first last : Nat) :
    Decodes (path ++ (Sample.mark first last ++ ending)) path first last := by
  have hmark : Sample.mark first last ++ ending =
      '$' :: (Text.ofNat first ++ '-' :: (Text.ofNat last ++ ending)) := by
    simp [Sample.mark, Text.ofInt]
  have hfirst := digits_ofNat first
  have hlast := digits_ofNat last
  obtain ⟨m, hm, hrest, hparts⟩ := matchStart_whole_append hpath hfirst hlast hending
  rw [hmark]
  refine ⟨⟨m, hm, Pattern.text_of_matchAt hm ?_, hparts⟩, unmarked_append (isMark_of_ending hfirst hlast hending) path⟩
  rw [hrest, List.append_nil]

end Reference

namespace Sample

/-- **The extensions of languages** are words, as they stand behind a mark. -/
theorem ending_of_extension? {s : Sample} {languages : List Text} {extension : Text}
    (h : s.extension? languages = some extension) : Ending ('.' :: extension) := by
  have hwords : ∀ word ∈ Extension.scripts, word ≠ [] ∧ word.all Text.isWord = true := by decide +kernel
  have hscript : extension ∈ Extension.scripts := by
    rw [extension?] at h
    split at h
    · cases h
    · rename_i language _
      obtain ⟨hlanguage, -⟩ := Option.filter_eq_some_iff.1 h
      rw [Extension.ofLanguage?] at hlanguage
      split_ifs at hlanguage with hts hjs hmem
      · obtain rfl := Option.some.inj hlanguage
        decide +kernel
      · obtain rfl := Option.some.inj hlanguage
        decide +kernel
      · obtain rfl := Option.some.inj hlanguage
        exact List.contains_iff_mem.1 hmem
  obtain ⟨hne, hword⟩ := hwords extension hscript
  exact .extension hne (List.all_eq_true.1 hword)

/-- The fences of a sample that was found stand in lines of its document. -/
theorem lines_nonneg_of_mem_findAll {text : Text} {document : Path} {s : Sample} (h : s ∈ findAll text document) :
    0 ≤ s.startLine ∧ 0 ≤ s.endLine := by
  have hlines := inLines_findAll text document
  have hfirst := hlines.first s h
  have hlast := (hlines.last s h).1
  have hcount := hlines.count s h
  omega

/-- **References and sample files are read back.** -/
theorem reference_decodes (s : Sample) (hlines : 0 ≤ s.startLine ∧ 0 ≤ s.endLine) :
    ('\n' ∉ s.file.toText → ∀ ending, Ending ending →
      Decodes (s.reference ++ ending) s.file.toText s.startLine s.endLine) ∧
    ∀ extension, Ending ('.' :: extension) →
      (∀ label, '\n' ∉ label → Decodes (label ++ s.fileEnding extension) label s.startLine s.endLine) ∧
      ∀ directory session, ∃ label after, let name := label ++ s.fileEnding extension
        (store directory s extension).perform session =
          (.ok { s with path := some (.ofAbsolute (directory ++ [name])) }, after) ∧
        Decodes name label s.startLine s.endLine ∧
        ((∀ part ∈ directory, '\n' ∉ part) → Decodes (Path.ofAbsolute (directory ++ [name])).toText
          (Path.ofAbsolute (directory ++ [label])).toText s.startLine s.endLine) := by
  obtain ⟨first, hfirst⟩ := Int.eq_ofNat_of_zero_le hlines.1
  obtain ⟨last, hlast⟩ := Int.eq_ofNat_of_zero_le hlines.2
  have hfile : ∀ extension label, Ending ('.' :: extension) → '\n' ∉ label →
      Decodes (label ++ s.fileEnding extension) label s.startLine s.endLine := by
    intro extension label hextension hlabel
    rw [fileEnding, hfirst, hlast]
    exact decodes_append_mark hlabel hextension first last
  refine ⟨fun hline ending hending => ?_, fun extension hextension =>
    ⟨fun label => hfile extension label hextension, fun directory session => ?_⟩⟩
  · rw [reference, hfirst, hlast, List.append_assoc]
    exact decodes_append_mark hline hending first last
  · let label := Host.fileLabel ++ Text.ofNat (session.host.fresh directory Host.fileLabel (s.fileEnding extension))
    have hlabel : '\n' ∉ label := by
      intro hmem
      rcases List.mem_append.1 hmem with hmem | hmem
      · exact absurd hmem (by decide)
      · exact absurd (Text.isDigit_of_mem_ofNat hmem) (by decide)
    refine ⟨label, _, rfl, hfile extension label hextension hlabel, fun hdirectory => ?_⟩
    rw [Path.toText_append_ending]
    refine hfile extension _ hextension fun hmem => ?_
    rcases Path.mem_toText hmem with hslash | ⟨part, hpart, hin⟩
    · exact absurd hslash (by decide)
    · rcases List.mem_append.1 hpart with hpart | hpart
      · exact hdirectory part hpart hin
      · exact hlabel (List.mem_singleton.1 hpart ▸ hin)

/-- A document whose path ends in a mark itself, and has another in the middle. -/
theorem reference_decodes_marked :
    let document : Path := .ofText "/a$1-2.ts/$b.c$3-4.md".toList
    let text : Text := "# Notes\n```ts\na\nb\n```\n".toList
    let s : Sample := ⟨document, 2, 2, 1, [], some "ts".toList, "a\nb\n".toList, none⟩
    let session : Session := ⟨{ tree := {}, cwd := [], temporary := ["tmp".toList] }, [], []⟩
    s ∈ findAll text document ∧ s.extension? ["ts".toList] = some "ts".toList ∧ '\n' ∉ s.file.toText ∧
      Decodes "/a$1-2.ts/$b.c$3-4.md$2-5".toList "/a$1-2.ts/$b.c$3-4.md".toList 2 5 ∧
      Decodes "/a$1-2.ts/$b.c$3-4.md$2-5.tsx".toList "/a$1-2.ts/$b.c$3-4.md".toList 2 5 ∧
      ∃ label after, (store ["tmp".toList] s "ts".toList).perform session =
          (.ok { s with path := some (.ofAbsolute ["tmp".toList, label ++ "$2-5.ts".toList]) }, after) ∧
        Decodes (label ++ "$2-5.ts".toList) label 2 5 ∧
        Decodes ("/tmp/".toList ++ (label ++ "$2-5.ts".toList)) ("/tmp/".toList ++ label) 2 5 := by
  intro document text s session
  have hsamples : findAll text document = [s] := findAll_eq_of_scanWithin 6 (by decide +kernel)
  have hfound : s ∈ findAll text document := by simp [hsamples]
  have hextension : s.extension? ["ts".toList] = some "ts".toList := by decide +kernel
  have hline : '\n' ∉ s.file.toText := by decide +kernel
  obtain ⟨href, hfile⟩ := reference_decodes s (lines_nonneg_of_mem_findAll hfound)
  obtain ⟨-, hstored⟩ := hfile _ (ending_of_extension? hextension)
  obtain ⟨label, after, hstore, hname, hplace⟩ := hstored ["tmp".toList] session
  have htsx : Ending ".tsx".toList := .extension (by decide) (List.all_eq_true.1 (by decide +kernel))
  exact ⟨hfound, hextension, hline, href hline [] .nothing, href hline _ htsx, label, after, hstore, hname,
    hplace (by decide)⟩

end Sample

end Fenceline
