import Mathlib
import Downlevel.Manifest
import Downlevel.Proofs.Outcome
import Downlevel.Proofs.Utf8

/-!
# Manifests that are written and read again

An attribute is written on one line, which is broken where it becomes too long; the rest goes on behind
a blank.  The reader takes the lines apart again: it drops one carriage return at the end of each, puts
what follows a blank behind the last value, and splits any other line at the first colon that a blank
follows.

What a reader has read fits this: a name has no colon that a blank follows and does not begin with a
blank, names do not repeat within a section, and there is no line feed anywhere.  Values may hold
anything else, carriage returns, colons and blanks included, wherever the line is broken.  Only one
thing can go wrong: if a name is so long that its line is broken before the blank behind the colon, then
no reader finds the end of the name.

* `Text.splitLines_flatMap` — lines, each with its line feed, are split into these lines;
* `Manifest.fold` — the lines that a line is broken into, and what is known of each;
* `Manifest.ofBytes_readable` — what holds of every manifest that was read;
* `Manifest.reads_attrLines`, `Manifest.Readable.reads_lines` — lines of attributes are read as these
  attributes;
* `Manifest.refused_attrLines` — a name that is too long is refused;
* `Manifest.survives_writing` — **a manifest is written in short lines of whole characters, and is read
  again exactly if its names fit**.
-/

namespace Downlevel

/-! ## Lines of a text -/

namespace Text

/-- A line is split off at the line feed behind it. -/
theorem splitLinesFrom_append {line : List Char} (hline : '\n' ∉ line) (done : List (List Char))
    (part rest : List Char) :
    splitLinesFrom done part (line ++ '\n' :: rest) =
      splitLinesFrom ((part.reverse ++ line) :: done) [] rest := by
  induction line generalizing part with
  | nil => simp [splitLinesFrom]
  | cons c line ih =>
      have hc : c ≠ '\n' := fun heq => hline (heq ▸ List.mem_cons_self)
      rw [List.cons_append, splitLinesFrom, if_neg hc, ih fun h => hline (List.mem_cons_of_mem c h)]
      simp

/-- **Lines, each with its line feed**, are split into these lines, with nothing behind the last line
feed. -/
theorem splitLines_flatMap {lines : List (List Char)} (hlines : ∀ line ∈ lines, '\n' ∉ line) :
    splitLines (lines.flatMap (· ++ ['\n'])) = lines ++ [[]] := by
  have hfrom (done : List (List Char)) :
      splitLinesFrom done [] (lines.flatMap (· ++ ['\n'])) = done.reverse ++ (lines ++ [[]]) := by
    induction lines generalizing done with
    | nil => simp [splitLinesFrom]
    | cons line lines ih =>
        obtain ⟨hline, hothers⟩ := List.forall_mem_cons.mp hlines
        rw [List.flatMap_cons, List.append_assoc, List.singleton_append,
          splitLinesFrom_append hline, ih hothers]
        simp
  exact hfrom []

/-- No line that is split off holds a line feed. -/
theorem not_mem_of_mem_splitLines {text line : List Char} (h : line ∈ splitLines text) :
    '\n' ∉ line := by
  have hfrom (done : List (List Char)) (part : List Char) (hdone : ∀ line ∈ done, '\n' ∉ line)
      (hpart : '\n' ∉ part) : ∀ line ∈ splitLinesFrom done part text, '\n' ∉ line := by
    have hended : ∀ line ∈ part.reverse :: done, '\n' ∉ line :=
      List.forall_mem_cons.mpr ⟨by simpa using hpart, hdone⟩
    clear h
    induction text generalizing done part with
    | nil =>
        intro line hline
        exact hended line (List.mem_reverse.mp hline)
    | cons c text ih =>
        rw [splitLinesFrom]
        split
        next => exact ih _ _ hended (by simp) (List.forall_mem_cons.mpr ⟨by simp, hended⟩)
        next hc =>
          have hlonger : '\n' ∉ c :: part := by simpa [hpart] using Ne.symm hc
          refine ih _ _ hdone hlonger (List.forall_mem_cons.mpr ⟨?_, hdone⟩)
          rwa [List.mem_reverse]
  exact hfrom [] [] (by simp) (by simp) line h

/-- A text is the same as itself, whatever the case of its letters. -/
@[simp] theorem sameIgnoringCase_self (text : String) : sameIgnoringCase text text = true := by
  simp [sameIgnoringCase]

end Text

/-! ## Attributes -/

namespace Attrs

variable {attrs : Attrs} {name value : String}

/-- Setting an attribute that is not there adds it at the end. -/
theorem set_of_not_mem (h : name ∉ attrs.map Prod.fst) :
    attrs.set name value = attrs ++ [(name, value)] := by
  induction attrs with
  | nil => rfl
  | cons attr attrs ih =>
      obtain ⟨key, old⟩ := attr
      have hkey : key ≠ name := fun heq => h (heq ▸ List.mem_cons_self)
      rw [set, if_neg hkey, ih fun hmem => h (List.mem_cons_of_mem _ hmem)]
      rfl

/-- Setting an attribute keeps the names, or adds one at the end. -/
theorem map_fst_set : (attrs.set name value).map Prod.fst =
    if name ∈ attrs.map Prod.fst then attrs.map Prod.fst else attrs.map Prod.fst ++ [name] := by
  induction attrs with
  | nil => rfl
  | cons attr attrs ih =>
      obtain ⟨key, old⟩ := attr
      by_cases hkey : key = name
      · simp [set, hkey]
      · simp only [set, if_neg hkey, List.map_cons, ih, List.mem_cons, Ne.symm hkey, false_or]
        split <;> rfl

/-- What is there once an attribute is set is that attribute, or was there. -/
theorem mem_of_mem_set {attr : String × String} (h : attr ∈ attrs.set name value) :
    attr = (name, value) ∨ attr ∈ attrs := by
  induction attrs with
  | nil => exact .inl (List.mem_singleton.mp h)
  | cons first attrs ih =>
      obtain ⟨key, old⟩ := first
      rw [set] at h
      split at h
      next hkey =>
        rcases List.mem_cons.mp h with rfl | hother
        · exact .inl (by rw [hkey])
        · exact .inr (List.mem_cons_of_mem _ hother)
      next =>
        rcases List.mem_cons.mp h with rfl | hother
        · exact .inr List.mem_cons_self
        · exact (ih hother).imp_right (List.mem_cons_of_mem _)

/-- Changing an attribute keeps the names. -/
theorem map_fst_update (f : String → String) :
    (attrs.update name f).map Prod.fst = attrs.map Prod.fst := by
  rw [update, List.map_map]
  refine List.map_congr_left fun attr _ => ?_
  dsimp only [Function.comp_apply]
  split <;> rfl

/-- What is there once an attribute is changed was there, with that value or the one that is
changed. -/
theorem mem_of_mem_update {f : String → String} {attr : String × String}
    (h : attr ∈ attrs.update name f) :
    ∃ old, (attr.1, old) ∈ attrs ∧ (attr.2 = old ∨ attr.2 = f old) := by
  obtain ⟨⟨key, old⟩, hmem, rfl⟩ := List.mem_map.mp h
  dsimp only
  split
  · exact ⟨old, hmem, .inr rfl⟩
  · exact ⟨old, hmem, .inl rfl⟩

/-- Changing the last attribute, the name of which no other has. -/
theorem update_append (h : name ∉ attrs.map Prod.fst) (f : String → String) :
    update name f (attrs ++ [(name, value)]) = attrs ++ [(name, f value)] := by
  have hothers : update name f attrs = attrs := by
    refine (List.map_congr_left fun attr hattr => ?_).trans (List.map_id _)
    have hkey : attr.1 ≠ name := fun heq => h (List.mem_map.mpr ⟨attr, hattr, heq⟩)
    exact if_neg hkey
  have hlast : update name f [(name, value)] = [(name, f value)] := by simp [update]
  calc update name f (attrs ++ [(name, value)])
      = update name f attrs ++ update name f [(name, value)] := List.map_append
    _ = attrs ++ [(name, f value)] := by rw [hothers, hlast]

/-- An attribute is as a reader gives it: what stands before its first colon and blank is its name,
and no line feed is in it. -/
structure Plain (attr : String × String) : Prop where
  begins : attr.1.toList.head? ≠ some ' '
  separate : ¬ [':', ' '] <:+: attr.1.toList
  name_line : '\n' ∉ attr.1.toList
  value_line : '\n' ∉ attr.2.toList

/-- Attributes are as a reader gives them: each is, and no name occurs twice. -/
structure Readable (attrs : Attrs) : Prop where
  plain : ∀ attr ∈ attrs, Plain attr
  nodup : (attrs.map Prod.fst).Nodup

/-- No attributes. -/
theorem readable_nil : Readable [] where
  plain := by simp
  nodup := by simp

/-- Setting an attribute. -/
theorem Readable.set (h : attrs.Readable) (hplain : Plain (name, value)) :
    (attrs.set name value).Readable where
  plain attr hattr := by
    rcases mem_of_mem_set hattr with rfl | hmem
    · exact hplain
    · exact h.plain attr hmem
  nodup := by
    rw [map_fst_set]
    split
    next => exact h.nodup
    next hnew =>
      refine List.nodup_append.mpr ⟨h.nodup, by simp, fun other hother own hown heq => hnew ?_⟩
      rwa [← List.mem_singleton.mp hown, ← heq]

/-- Putting something behind the value of an attribute. -/
theorem Readable.update (h : attrs.Readable) {more : List Char} (hmore : '\n' ∉ more) :
    (attrs.update name fun value => value ++ String.ofList more).Readable where
  plain attr hattr := by
    obtain ⟨old, hmem, hvalue⟩ := mem_of_mem_update hattr
    obtain ⟨hbegins, hseparate, hname, hline⟩ := h.plain _ hmem
    refine ⟨hbegins, hseparate, hname, ?_⟩
    rcases hvalue with heq | heq
    · rwa [heq]
    · simp [heq, hmore, hline]
  nodup := by
    rw [map_fst_update]
    exact h.nodup

end Attrs

namespace Manifest

/-! ## What a reader reads -/

/-- A name without a colon that a blank follows ends at the colon and the blank behind it. -/
theorem splitAttr_append {name : List Char} (hname : ¬ [':', ' '] <:+: name) (done value : List Char) :
    splitAttr done (name ++ ':' :: ' ' :: value) =
      some (String.ofList (done.reverse ++ name), String.ofList value) := by
  induction name generalizing done with
  | nil => simp [splitAttr]
  | cons c name ih =>
      have hothers : ¬ [':', ' '] <:+: name := fun h => hname (List.infix_cons h)
      rw [List.cons_append, splitAttr, ih hothers]
      · simp
      · rintro behind rfl hbehind
        cases name with
        | nil => cases hbehind
        | cons d name =>
            obtain ⟨rfl, -⟩ := List.cons.inj hbehind
            exact hname (List.prefix_append [':', ' '] name).isInfix

/-- The parts of a line are what stands around its first colon and blank. -/
theorem splitAttr_eq_some {done line : List Char} {name value : String}
    (h : splitAttr done line = some (name, value)) :
    ∃ own, name = String.ofList (done.reverse ++ own) ∧ ¬ [':', ' '] <:+: own ∧
      line = own ++ ':' :: ' ' :: value.toList := by
  fun_induction splitAttr done line with
  | case1 done behind =>
      cases h
      exact ⟨[], by simp, by simp, by simp⟩
  | case2 done c rest hne ih =>
      obtain ⟨own, rfl, hown, rfl⟩ := ih h
      refine ⟨c :: own, by simp, ?_, rfl⟩
      rw [List.infix_cons_iff, not_or]
      refine ⟨fun hfront => ?_, hown⟩
      obtain ⟨rfl, hblank⟩ := List.cons_prefix_cons.mp hfront
      cases own with
      | nil => simp at hblank
      | cons d own =>
          obtain ⟨rfl, -⟩ := List.cons_prefix_cons.mp hblank
          exact hne _ rfl rfl
  | case3 => cases h

/-- A line without a colon that a blank follows has no parts. -/
theorem splitAttr_eq_none {line : List Char} (hline : ¬ [':', ' '] <:+: line) (done : List Char) :
    splitAttr done line = none := by
  cases hsplit : splitAttr done line with
  | none => rfl
  | some parts =>
      obtain ⟨own, -, -, rfl⟩ := splitAttr_eq_some hsplit
      exact absurd ⟨own, parts.2.toList, by simp⟩ hline

/-- What was read of a manifest is as it is to be. -/
structure Progress.Readable (progress : Progress) : Prop where
  main : ∀ attrs, progress.main = some attrs → attrs.Readable
  sections : ∀ attrs ∈ progress.sections, attrs.Readable ∧ attrs ≠ []
  current : progress.current.Readable

/-- A manifest is as a reader gives it. -/
structure Readable (manifest : Manifest) : Prop where
  main : manifest.main.Readable
  sections : ∀ attrs ∈ manifest.sections, attrs.Readable ∧ attrs ≠ []

/-- Ending a section. -/
theorem Progress.Readable.endSection {progress : Progress} (h : progress.Readable) :
    progress.endSection.Readable := by
  unfold Progress.endSection
  split
  next =>
    refine ⟨?_, h.sections, Attrs.readable_nil⟩
    rintro _ ⟨⟩
    exact h.current
  next =>
    split
    next => exact ⟨h.main, h.sections, h.current⟩
    next hsome =>
      have hne : progress.current ≠ [] := fun hnil => hsome (by simp [hnil])
      exact ⟨h.main, List.forall_mem_cons.mpr ⟨⟨h.current, hne⟩, h.sections⟩, Attrs.readable_nil⟩

/-- Reading a line. -/
theorem readLine_readable {progress progress' : Progress} {number : Nat} {line : List Char}
    (hprogress : progress.Readable) (hline : '\n' ∉ line)
    (h : readLine progress number line = .ok progress') : progress'.Readable := by
  have hstripped : '\n' ∉ stripReturn line := by
    unfold stripReturn
    split
    · exact fun hmem => hline (List.dropLast_subset _ hmem)
    · exact hline
  unfold readLine at h
  split at h
  next =>
    cases h
    exact hprogress.endSection
  next rest hrest =>
    split at h
    next name _ =>
      cases h
      rw [hrest] at hstripped
      have hmore : '\n' ∉ rest := fun hmem => hstripped (List.mem_cons_of_mem _ hmem)
      exact ⟨hprogress.main, hprogress.sections, hprogress.current.update hmore⟩
    next => cases h
  next hblank =>
    split at h
    next name value hsplit =>
      cases h
      obtain ⟨own, rfl, hown, hparts⟩ := splitAttr_eq_some hsplit
      rw [hparts] at hstripped
      simp only [List.mem_append, List.mem_cons, not_or] at hstripped
      refine ⟨hprogress.main, hprogress.sections, hprogress.current.set ⟨?_, ?_, ?_, ?_⟩⟩
      · intro hhead
        cases own with
        | nil => cases hhead
        | cons c own =>
            obtain rfl : c = ' ' := by simpa using hhead
            exact hblank _ hparts
      · simpa using hown
      · simpa using hstripped.1
      · exact hstripped.2.2.2
    next => cases h

/-- Reading lines. -/
theorem readLines_readable {progress progress' : Progress} {number : Nat} {lines : List (List Char)}
    (hprogress : progress.Readable) (hlines : ∀ line ∈ lines, '\n' ∉ line)
    (h : readLines progress number lines = .ok progress') : progress'.Readable := by
  induction lines generalizing progress number with
  | nil =>
      cases h
      exact hprogress
  | cons line lines ih =>
      obtain ⟨hline, hothers⟩ := List.forall_mem_cons.mp hlines
      obtain ⟨next, hnext, hrest⟩ := bind_eq_ok.mp h
      exact ih (readLine_readable hprogress hline hnext) hothers hrest

/-- **What holds of every manifest that was read.** -/
theorem ofBytes_readable {bytes : Bytes} {manifest : Manifest} (h : ofBytes bytes = .ok manifest) :
    manifest.Readable := by
  obtain ⟨text, -, hread⟩ := bind_eq_ok.mp h
  obtain ⟨progress, hprogress, hfinish⟩ := bind_eq_ok.mp hread
  obtain rfl := pure_eq_ok.mp hfinish
  have hempty : ({} : Progress).Readable := ⟨by simp, by simp, Attrs.readable_nil⟩
  have hlast := readLines_readable hempty (fun _ => Text.not_mem_of_mem_splitLines) hprogress
  have hended := hlast.endSection
  refine ⟨?_, fun attrs hattrs => hended.sections attrs (List.mem_reverse.mp hattrs)⟩
  show (progress.endSection.main.getD []).Readable
  cases hmain : progress.endSection.main with
  | none => exact Attrs.readable_nil
  | some attrs => exact hended.main attrs hmain

/-! ## How lines are broken -/

/-- How many bytes a text takes. -/
def width (text : List Char) : Nat :=
  (text.flatMap Utf8.encodeChar).length

@[simp] theorem width_nil : width [] = 0 :=
  rfl

@[simp] theorem width_cons (c : Char) (text : List Char) :
    width (c :: text) = byteSize c + width text := by
  simp [width, byteSize]

@[simp] theorem width_append (text more : List Char) :
    width (text ++ more) = width text + width more := by
  simp [width]

/-- A character takes one to four bytes. -/
theorem byteSize_bounds (c : Char) : 1 ≤ byteSize c ∧ byteSize c ≤ 4 :=
  Utf8.length_encodeChar c

/-- The lines that a text is broken into: the first one, which has the given room, and those behind
it, without their blanks. -/
def fold (room : Nat) : List Char → List Char × List (List Char)
  | [] => ([], [])
  | c :: rest =>
      if byteSize c ≤ room then
        (c :: (fold (room - byteSize c) rest).1, (fold (room - byteSize c) rest).2)
      else
        ([], (c :: (fold (lineLength - 1 - byteSize c) rest).1) ::
          (fold (lineLength - 1 - byteSize c) rest).2)

/-- What is known of the lines that a text is broken into.  They are the text; each fits and, but for
the first, holds something; and nothing of what follows would have fitted on the first one. -/
structure Folded (room : Nat) (text first : List Char) (others : List (List Char)) : Prop where
  joined : first ++ others.flatten = text
  first_fits : width first ≤ room
  others_fit : ∀ line ∈ others, line ≠ [] ∧ width line ≤ lineLength - 1
  full : ∀ c rest, others.flatten = c :: rest → room < width first + byteSize c

/-- **The lines that a text is broken into** are as they are to be. -/
theorem fold_folded (room : Nat) (text : List Char) :
    Folded room text (fold room text).1 (fold room text).2 := by
  fun_induction fold room text with
  | case1 => exact ⟨rfl, by simp, by simp, by simp⟩
  | case2 room c rest hfits ih =>
      obtain ⟨hjoined, hfirst, hothers, hfull⟩ := ih
      refine ⟨by rw [List.cons_append, hjoined], ?_, hothers, fun d behind hnext => ?_⟩
      · rw [width_cons]
        omega
      · have hlong := hfull d behind hnext
        rw [width_cons]
        omega
  | case3 room c rest hlong ih =>
      obtain ⟨hjoined, hfirst, hothers, -⟩ := ih
      have hsize := byteSize_bounds c
      refine ⟨by simp [hjoined], by simp, ?_, ?_⟩
      · refine List.forall_mem_cons.mpr ⟨⟨List.cons_ne_nil _ _, ?_⟩, hothers⟩
        rw [width_cons]
        simp only [lineLength] at hfirst ⊢
        omega
      · intro d behind hnext
        rw [List.flatten_cons, List.cons_append] at hnext
        obtain ⟨rfl, -⟩ := List.cons.inj hnext
        rw [width_nil]
        omega

/-- A text that is broken, with its end, is the lines that it is broken into, each with its end. -/
theorem foldLine_append (room : Nat) (text : List Char) :
    foldLine room text ++ lineEnd = (fold room text).1 ++ lineEnd ++
      (fold room text).2.flatMap fun line => ' ' :: line ++ lineEnd := by
  fun_induction fold room text with
  | case1 => simp [foldLine]
  | case2 room c rest hfits ih => simp [foldLine, hfits, ih]
  | case3 room c rest hlong ih => simpa [foldLine, hlong, lineEnd] using ih

/-- An attribute on one line. -/
def attrLine (attr : String × String) : List Char :=
  attr.1.toList ++ ':' :: ' ' :: attr.2.toList

/-- The lines of an attribute. -/
def attrLines (attr : String × String) : List (List Char) :=
  (fold lineLength (attrLine attr)).1 :: (fold lineLength (attrLine attr)).2.map (' ' :: ·)

/-- The lines of attributes, with the empty line behind them. -/
def sectionLines (attrs : Attrs) : List (List Char) :=
  attrs.flatMap attrLines ++ [[]]

/-- The lines of a manifest. -/
def lines (manifest : Manifest) : List (List Char) :=
  sectionLines manifest.mainAttrs ++ manifest.sections.flatMap sectionLines

/-- What is written for an attribute is its lines. -/
theorem writeAttr_eq (attr : String × String) :
    writeAttr attr.1 attr.2 = (attrLines attr).flatMap (· ++ lineEnd) := by
  rw [writeAttr, foldLine_append, attrLines, attrLine, List.flatMap_cons, List.flatMap_map]

/-- What is written for attributes is their lines. -/
theorem writeSection_eq (attrs : Attrs) :
    writeSection attrs = (sectionLines attrs).flatMap (· ++ lineEnd) := by
  simp [writeSection, sectionLines, writeAttr_eq, List.flatMap_assoc]

/-- **A manifest as text is its lines**, each with its end. -/
theorem toList_text (manifest : Manifest) :
    manifest.text.toList = manifest.lines.flatMap (· ++ lineEnd) := by
  rw [text, String.toList_ofList, lines, List.flatMap_append, List.flatMap_assoc, writeSection_eq,
    funext writeSection_eq]

/-- A line fits, has no line feed in it and is no blank alone. -/
structure Fits (line : List Char) : Prop where
  oneLine : '\n' ∉ line
  short : width line ≤ lineLength
  moves : line ≠ [' ']

/-- An attribute on one line begins with no blank. -/
theorem head_attrLine {attr : String × String} (hattr : Attrs.Plain attr) :
    (attrLine attr).head? ≠ some ' ' := by
  unfold attrLine
  cases hname : attr.1.toList with
  | nil => simp
  | cons c name =>
      have hbegins := hattr.begins
      rw [hname] at hbegins
      exact hbegins

/-- The lines of an attribute fit. -/
theorem attrLines_fit {attr : String × String} (hattr : Attrs.Plain attr) :
    ∀ line ∈ attrLines attr, Fits line := by
  obtain ⟨hjoined, hfirst, hothers, -⟩ := fold_folded lineLength (attrLine attr)
  have hline : '\n' ∉ attrLine attr := by
    simp [attrLine, hattr.name_line, hattr.value_line]
  have hhead := head_attrLine hattr
  rw [← hjoined, List.mem_append, List.mem_flatten, not_or] at hline
  rw [← hjoined] at hhead
  refine List.forall_mem_cons.mpr ⟨⟨hline.1, hfirst, ?_⟩, List.forall_mem_map.mpr fun line hmem => ?_⟩
  · intro hblank
    rw [hblank] at hhead
    exact hhead rfl
  · obtain ⟨hne, hwidth⟩ := hothers line hmem
    have hblank : byteSize ' ' = 1 := rfl
    refine ⟨?_, ?_, fun heq => hne (List.cons.inj heq).2⟩
    · refine List.not_mem_cons_of_ne_of_not_mem (by decide) fun hfeed => ?_
      exact hline.2 ⟨line, hmem, hfeed⟩
    · rw [width_cons, hblank]
      simp only [lineLength] at hwidth ⊢
      omega

/-- The lines of attributes fit. -/
theorem sectionLines_fit {attrs : Attrs} (hattrs : attrs.Readable) :
    ∀ line ∈ sectionLines attrs, Fits line := by
  refine List.forall_mem_append.mpr ⟨?_, List.forall_mem_singleton.mpr ⟨by simp, by simp, by simp⟩⟩
  intro line hline
  obtain ⟨attr, hattr, hmem⟩ := List.mem_flatMap.mp hline
  exact attrLines_fit (hattrs.plain attr hattr) line hmem

/-- The main attributes as they are written are as a reader gives them. -/
theorem Readable.mainAttrs {manifest : Manifest} (h : manifest.Readable) :
    manifest.mainAttrs.Readable := by
  have hversion : '\n' ∉ ((manifest.get? versionName).getD "1.0").toList := by
    unfold get? Attrs.find?
    cases hfind : List.find? (fun attr => Text.sameIgnoringCase attr.1 versionName) manifest.main with
    | none => decide
    | some attr => exact (h.main.plain attr (List.mem_of_find?_eq_some hfind)).value_line
  have hbegins : versionName.toList.head? ≠ some ' ' := by decide
  have hseparate : ¬ [':', ' '] <:+: versionName.toList := by
    simp [versionName, List.infix_cons_iff]
  have hname : '\n' ∉ versionName.toList := by decide
  refine ⟨List.forall_mem_cons.mpr ⟨⟨hbegins, hseparate, hname, hversion⟩, ?_⟩, ?_⟩
  · exact fun attr hattr => h.main.plain attr (List.mem_of_mem_filter hattr)
  · refine List.nodup_cons.mpr ⟨?_, h.main.nodup.sublist (List.filter_sublist.map _)⟩
    intro hmem
    obtain ⟨attr, hattr, heq⟩ := List.mem_map.mp hmem
    have hother := (List.mem_filter.mp hattr).2
    simp [heq] at hother

/-- The lines of a manifest fit. -/
theorem Readable.lines_fit {manifest : Manifest} (h : manifest.Readable) :
    ∀ line ∈ manifest.lines, Fits line := by
  refine List.forall_mem_append.mpr ⟨sectionLines_fit h.mainAttrs, fun line hline => ?_⟩
  obtain ⟨attrs, hattrs, hmem⟩ := List.mem_flatMap.mp hline
  exact sectionLines_fit (h.sections attrs hattrs).1 line hmem

/-! ## Reading the lines again -/

/-- Lines are read behind lines. -/
theorem readLines_append {before between : Progress} {number : Nat} {first : List (List Char)}
    (h : readLines before number first = .ok between) (second : List (List Char)) :
    readLines before number (first ++ second) =
      readLines between (number + first.length) second := by
  induction first generalizing before number with
  | nil =>
      cases h
      rfl
  | cons line first ih =>
      obtain ⟨next, hnext, hrest⟩ := bind_eq_ok.mp h
      rw [List.cons_append, readLines, hnext, List.length_cons, Nat.add_comm first.length,
        ← Nat.add_assoc]
      exact ih hrest

/-- Lines, each with the carriage return at its end, are read, whatever their numbers are. -/
def Reads (lines : List (List Char)) (before after : Progress) : Prop :=
  ∀ number, readLines before number (lines.map (· ++ ['\r'])) = .ok after

variable {before between after : Progress}

theorem Reads.nil (progress : Progress) : Reads [] progress progress :=
  fun _ => rfl

/-- Lines behind a first one. -/
theorem Reads.cons {line : List Char} {lines : List (List Char)}
    (hline : ∀ number, readLine before number (line ++ ['\r']) = .ok between)
    (hlines : Reads lines between after) : Reads (line :: lines) before after := by
  intro number
  rw [List.map_cons, readLines, hline]
  exact hlines (number + 1)

/-- Lines behind others. -/
theorem Reads.append {first second : List (List Char)} (h : Reads first before between)
    (hrest : Reads second between after) : Reads (first ++ second) before after := by
  intro number
  rw [List.map_append, readLines_append (h number)]
  exact hrest _

/-- The carriage return at the end of a line is dropped. -/
theorem stripReturn_append (line : List Char) : stripReturn (line ++ ['\r']) = line := by
  simp [stripReturn]

/-- An empty line ends a section. -/
theorem reads_empty (progress : Progress) : Reads [[]] progress progress.endSection :=
  .cons (fun _ => rfl) (.nil _)

/-- The line of an attribute is read as that attribute. -/
theorem readLine_attr {name : List Char} (hbegins : name.head? ≠ some ' ')
    (hseparate : ¬ [':', ' '] <:+: name) (progress : Progress) (number : Nat) (value : List Char) :
    readLine progress number (name ++ ':' :: ' ' :: value ++ ['\r']) =
      .ok { progress with
        current := progress.current.set (String.ofList name) (String.ofList value)
        last := some (String.ofList name) } := by
  rw [readLine, stripReturn_append]
  split
  next hempty => simp at hempty
  next rest hblank =>
    cases name with
    | nil => cases hblank
    | cons c name =>
        obtain ⟨rfl, -⟩ := List.cons.inj hblank
        exact absurd rfl hbegins
  next => rw [splitAttr_append hseparate, List.reverse_nil, List.nil_append]

/-- What follows a blank is put behind the last value. -/
theorem reads_others {attrs : Attrs} {name : String} (hname : name ∉ attrs.map Prod.fst)
    (progress : Progress) (others : List (List Char)) (value : List Char) :
    Reads (others.map (' ' :: ·))
      { progress with current := attrs ++ [(name, String.ofList value)], last := some name }
      { progress with
        current := attrs ++ [(name, String.ofList (value ++ others.flatten))], last := some name } := by
  induction others generalizing value with
  | nil =>
      rw [List.flatten_nil, List.append_nil]
      exact .nil _
  | cons line others ih =>
      refine .cons (fun number => ?_)
        (List.flatten_cons ▸ List.append_assoc value line _ ▸ ih (value ++ line))
      rw [readLine, stripReturn_append]
      simp only [Attrs.update_append hname, String.ofList_append]

/-- The first line of an attribute holds its name, with the colon and the blank, if there is room for
these. -/
theorem exists_first_line {attr : String × String} (hfits : width attr.1.toList + 2 ≤ lineLength) :
    ∃ value, (fold lineLength (attrLine attr)).1 = attr.1.toList ++ ':' :: ' ' :: value ∧
      value ++ (fold lineLength (attrLine attr)).2.flatten = attr.2.toList := by
  obtain ⟨hjoined, -, -, hfull⟩ := fold_folded lineLength (attrLine attr)
  have hparts : attrLine attr = (attr.1.toList ++ [':', ' ']) ++ attr.2.toList := by simp [attrLine]
  rcases List.append_eq_append_iff.mp (hjoined.trans hparts) with
    ⟨more, hname, hrest⟩ | ⟨value, hfirst, hvalue⟩
  · cases more with
    | nil => exact ⟨[], by simpa using hname.symm, by simpa using hrest⟩
    | cons c more =>
        -- the name would be cut off although the rest of it fits
        have hlong := hfull c _ hrest
        have hwidth := congrArg width hname
        have hcolon : byteSize ':' = 1 := rfl
        have hblank : byteSize ' ' = 1 := rfl
        simp only [width_append, width_cons, width_nil, hcolon, hblank] at hwidth
        omega
  · exact ⟨value, by simpa using hfirst, hvalue.symm⟩

/-- **The lines of an attribute** are read as that attribute, behind those that were read before. -/
theorem reads_attrLines {attr : String × String} (hattr : Attrs.Plain attr)
    (hfits : width attr.1.toList + 2 ≤ lineLength) {progress : Progress}
    (hnew : attr.1 ∉ progress.current.map Prod.fst) :
    Reads (attrLines attr) progress
      { progress with current := progress.current ++ [attr], last := some attr.1 } := by
  obtain ⟨value, hfirst, hvalue⟩ := exists_first_line hfits
  have hothers := reads_others hnew progress (fold lineLength (attrLine attr)).2 value
  rw [hvalue, String.ofList_toList] at hothers
  refine .cons (fun number => ?_) hothers
  rw [hfirst, readLine_attr hattr.begins hattr.separate, String.ofList_toList,
    Attrs.set_of_not_mem hnew]

/-- The lines of several attributes are read as these attributes. -/
theorem reads_attrs {attrs : Attrs} (hattrs : ∀ attr ∈ attrs, Attrs.Plain attr)
    (hfits : ∀ attr ∈ attrs, width attr.1.toList + 2 ≤ lineLength) (progress : Progress)
    (hnodup : ((progress.current ++ attrs).map Prod.fst).Nodup) :
    ∃ last, Reads (attrs.flatMap attrLines) progress
      { progress with current := progress.current ++ attrs, last := last } := by
  induction attrs generalizing progress with
  | nil => exact ⟨progress.last, by simpa using Reads.nil progress⟩
  | cons attr attrs ih =>
      obtain ⟨hattr, hothers⟩ := List.forall_mem_cons.mp hattrs
      obtain ⟨hfit, hothersFit⟩ := List.forall_mem_cons.mp hfits
      have hnew : attr.1 ∉ progress.current.map Prod.fst := by
        rw [List.map_append, List.map_cons, List.nodup_append] at hnodup
        exact fun hmem => hnodup.2.2 _ hmem _ List.mem_cons_self rfl
      have hjoin : progress.current ++ attr :: attrs = progress.current ++ [attr] ++ attrs := by simp
      rw [hjoin] at hnodup ⊢
      obtain ⟨last, hrest⟩ := ih hothers hothersFit
        { progress with current := progress.current ++ [attr], last := some attr.1 } hnodup
      exact ⟨last, (reads_attrLines hattr hfit hnew).append hrest⟩

/-- The lines of a section are read as its attributes, which are then ended. -/
theorem reads_sectionLines {attrs : Attrs} (hattrs : attrs.Readable)
    (hfits : ∀ attr ∈ attrs, width attr.1.toList + 2 ≤ lineLength) (progress : Progress)
    (hempty : progress.current = []) :
    ∃ last, Reads (sectionLines attrs) progress
      { progress with current := attrs, last := last }.endSection := by
  obtain ⟨last, hread⟩ := reads_attrs hattrs.plain hfits progress
    (by simpa [hempty] using hattrs.nodup)
  rw [hempty, List.nil_append] at hread
  exact ⟨last, hread.append (reads_empty _)⟩

/-- The lines of further sections are read as these sections. -/
theorem reads_sections {sections : List Attrs}
    (hsections : ∀ attrs ∈ sections, attrs.Readable ∧ attrs ≠ [])
    (hfits : ∀ attrs ∈ sections, ∀ attr ∈ attrs, width attr.1.toList + 2 ≤ lineLength)
    (main : Attrs) (done : List Attrs) :
    Reads (sections.flatMap sectionLines) { main := some main, sections := done }
      { main := some main, sections := sections.reverse ++ done } := by
  induction sections generalizing done with
  | nil => exact .nil _
  | cons attrs sections ih =>
      obtain ⟨⟨hattrs, hne⟩, hothers⟩ := List.forall_mem_cons.mp hsections
      obtain ⟨hfit, hothersFit⟩ := List.forall_mem_cons.mp hfits
      obtain ⟨last, hread⟩ := reads_sectionLines hattrs hfit
        { main := some main, sections := done } rfl
      have hended : Progress.endSection ⟨some main, done, attrs, last⟩ =
          { main := some main, sections := attrs :: done } := by
        simp [Progress.endSection, hne]
      rw [hended] at hread
      rw [List.reverse_cons, List.append_assoc, List.singleton_append]
      exact hread.append (ih hothers hothersFit (attrs :: done))

/-- The manifest that is read again.  Its main attributes begin with the version, which has the value
of the first attribute of that name in any spelling, or 1.0 if there is none; the others follow in order,
without any spelling of the version. -/
def normal (manifest : Manifest) : Manifest where
  main :=
    ("Manifest-Version", (manifest.get? "Manifest-Version").getD "1.0") ::
      manifest.main.filter fun attr => !Text.sameIgnoringCase attr.1 "Manifest-Version"
  sections := manifest.sections

/-- The name of every attribute that is written leaves room for a colon and a blank. -/
def NamesFit (manifest : Manifest) : Prop :=
  ∀ attr ∈ manifest.normal.main ++ manifest.normal.sections.flatten,
    (attr.1.toList.flatMap Utf8.encodeChar).length ≤ 70

/-- **The lines of a manifest** are read as its attributes, if all names fit. -/
theorem Readable.reads_lines {manifest : Manifest} (h : manifest.Readable)
    (hfit : manifest.NamesFit) :
    Reads manifest.lines {}
      { main := some manifest.normal.main, sections := manifest.sections.reverse } := by
  obtain ⟨hmain, hsections⟩ := List.forall_mem_append.mp hfit
  have hroom {attr : String × String} (hattr : (attr.1.toList.flatMap Utf8.encodeChar).length ≤ 70) :
      width attr.1.toList + 2 ≤ lineLength := Nat.add_le_add_right hattr 2
  obtain ⟨last, hread⟩ := reads_sectionLines h.mainAttrs
    (fun attr hattr => hroom (hmain attr hattr)) {} rfl
  have hrest := reads_sections h.sections
    (fun attrs hattrs attr hattr => hroom (hsections attr (List.mem_flatten.mpr ⟨attrs, hattrs, hattr⟩)))
    manifest.mainAttrs []
  rw [List.append_nil] at hrest
  exact hread.append hrest

/-- Reading what is written is reading its lines, and an empty one behind the last. -/
theorem Readable.ofBytes_toBytes_eq {manifest : Manifest} (h : manifest.Readable) :
    ofBytes manifest.toBytes =
      (readLines {} 1 (manifest.lines.map (· ++ ['\r']) ++ [[]])).map Progress.finish := by
  have htext : manifest.text.toList = (manifest.lines.map (· ++ ['\r'])).flatMap (· ++ ['\n']) := by
    rw [toList_text, List.flatMap_map]
    simp [lineEnd]
  have hlines : ∀ line ∈ manifest.lines.map (· ++ ['\r']), '\n' ∉ line := by
    refine List.forall_mem_map.mpr fun line hline => ?_
    simp [(h.lines_fit line hline).oneLine]
  have hsplit := Text.splitLines_flatMap hlines
  rw [← htext] at hsplit
  rw [ofBytes, toBytes, Utf8.decode_encode, ← hsplit]
  generalize manifest.text.toList = text
  show (readLines {} 1 (Text.splitLines text) >>= fun progress => pure progress.finish) = _
  cases readLines {} 1 (Text.splitLines text) <;> rfl

/-- An attribute that is written is as a reader gives it, and its lines are lines of the manifest. -/
theorem Readable.plain_of_mem {manifest : Manifest} (h : manifest.Readable) {attr : String × String}
    (hattr : attr ∈ manifest.normal.main ++ manifest.normal.sections.flatten) :
    Attrs.Plain attr ∧ ∀ line ∈ attrLines attr, line ∈ manifest.lines := by
  have hlines {attrs : Attrs} (hmem : attr ∈ attrs) :
      ∀ line ∈ attrLines attr, line ∈ sectionLines attrs := fun line hline =>
    List.mem_append_left _ (List.mem_flatMap.mpr ⟨attr, hmem, hline⟩)
  rcases List.mem_append.mp hattr with hmain | hsection
  · exact ⟨h.mainAttrs.plain attr hmain, fun line hline =>
      List.mem_append_left _ (hlines hmain line hline)⟩
  · obtain ⟨attrs, hattrs, hmem⟩ := List.mem_flatten.mp hsection
    refine ⟨(h.sections attrs hattrs).1.plain attr hmem, fun line hline => List.mem_append_right _ ?_⟩
    exact List.mem_flatMap.mpr ⟨attrs, hattrs, hlines hmem line hline⟩

/-! ## Names that are too long -/

/-- A line that is not empty, begins with no blank and has no colon that a blank follows is refused. -/
theorem refused_line {line : List Char} (hne : line ≠ []) (hbegins : line.head? ≠ some ' ')
    (hseparate : ¬ [':', ' '] <:+: line) (progress : Progress) (number : Nat) :
    ∃ error, readLine progress number (line ++ ['\r']) = .error error := by
  rw [readLine, stripReturn_append]
  split
  next => exact absurd rfl hne
  next => exact absurd rfl hbegins
  next =>
    rw [splitAttr_eq_none hseparate]
    exact ⟨_, rfl⟩

/-- Lines one of which is refused wherever it is met are refused. -/
theorem refused_lines {line : List Char} {lines : List (List Char)}
    (hline : ∀ progress number, ∃ error, readLine progress number line = .error error)
    (hmem : line ∈ lines) (progress : Progress) (number : Nat) :
    ∃ error, readLines progress number lines = .error error := by
  induction lines generalizing progress number with
  | nil => cases hmem
  | cons first lines ih =>
      rw [readLines]
      cases hfirst : readLine progress number first with
      | error error => exact ⟨error, rfl⟩
      | ok next =>
          rcases List.mem_cons.mp hmem with rfl | hother
          · obtain ⟨error, herror⟩ := hline progress number
            cases hfirst.symm.trans herror
          · exact ih hother next (number + 1)

/-- A name without a colon that a blank follows has none with a colon behind it either. -/
theorem not_infix_append {name : List Char} (hname : ¬ [':', ' '] <:+: name) :
    ¬ [':', ' '] <:+: name ++ [':'] := by
  rintro ⟨front, back, heq⟩
  rcases List.eq_nil_or_concat back with rfl | ⟨back, c, rfl⟩
  · have hlast := congrArg List.getLast? heq
    simp at hlast
  · rw [List.concat_eq_append, ← List.append_assoc] at heq
    exact hname ⟨front, back, (List.append_inj' heq rfl).1⟩

/-- **An attribute whose name is too long** has a first line that is refused. -/
theorem refused_attrLines {attr : String × String} (hattr : Attrs.Plain attr)
    (hlong : lineLength < width attr.1.toList + 2) :
    ∃ line ∈ attrLines attr, ∀ progress number,
      ∃ error, readLine progress number (line ++ ['\r']) = .error error := by
  obtain ⟨hjoined, hfits, -, hfull⟩ := fold_folded lineLength (attrLine attr)
  refine ⟨_, List.mem_cons_self, ?_⟩
  generalize (fold lineLength (attrLine attr)).1 = first at *
  generalize (fold lineLength (attrLine attr)).2.flatten = rest at *
  have hcolon : byteSize ':' = 1 := rfl
  have hblank : byteSize ' ' = 1 := rfl
  have hparts : attrLine attr = (attr.1.toList ++ [':']) ++ ' ' :: attr.2.toList := by simp [attrLine]
  -- the line ends before the blank behind the colon, so it is a part of the name and the colon
  have hprefix : first <+: attr.1.toList ++ [':'] := by
    rcases List.append_eq_append_iff.mp (hjoined.trans hparts) with
      ⟨more, hname, -⟩ | ⟨more, hmore, hrest⟩
    · exact ⟨more, hname.symm⟩
    · cases more with
      | nil => exact ⟨[], by simpa using hmore⟩
      | cons c more =>
          obtain ⟨rfl, -⟩ := List.cons.inj hrest
          rw [hmore] at hfits
          simp only [width_append, width_cons, width_nil, hcolon, hblank] at hfits
          omega
  obtain ⟨c, name, hname⟩ : ∃ c name, attr.1.toList = c :: name := by
    cases hname : attr.1.toList with
    | nil =>
        rw [hname, width_nil] at hlong
        exact absurd hlong (by decide)
    | cons c name => exact ⟨c, name, rfl⟩
  have hc : c ≠ ' ' := by
    rintro rfl
    exact hattr.begins (by rw [hname]; rfl)
  rw [hname] at hprefix
  cases first with
  | nil =>
      have hsize := byteSize_bounds c
      have hnot := hfull c (name ++ ':' :: ' ' :: attr.2.toList)
        (by simpa [attrLine, hname] using hjoined)
      rw [width_nil, lineLength] at hnot
      omega
  | cons d first =>
      obtain ⟨rfl, -⟩ := List.cons_prefix_cons.mp hprefix
      refine refused_line (List.cons_ne_nil _ _) (by simpa using hc) fun hwithin => ?_
      rw [← hname] at hprefix
      exact not_infix_append hattr.separate (hwithin.trans hprefix.isInfix)

/-- **Manifests survive writing exactly if their names fit.**  For every manifest that was read from
bytes: what is written is lines of whole characters, with at most 72 bytes without the line break, and
every line that goes on behind a blank takes at least a character with it, so that breaking lines comes
to its end; and reading what is written gives the manifest again, with the version first and only once,
exactly if every name that is written has at most 70 bytes, and otherwise it is refused. -/
theorem survives_writing {bytes : Bytes} {manifest : Manifest} (h : ofBytes bytes = .ok manifest) :
    (∃ lines : List (List Char),
      manifest.toBytes = lines.flatMap (fun line => (line ++ ['\r', '\n']).flatMap Utf8.encodeChar) ∧
        ∀ line ∈ lines, '\n' ∉ line ∧ (line.flatMap Utf8.encodeChar).length ≤ 72 ∧ line ≠ [' ']) ∧
      (ofBytes manifest.toBytes = .ok manifest.normal ↔ manifest.NamesFit) ∧
      (¬ manifest.NamesFit → ∃ error, ofBytes manifest.toBytes = .error error) := by
  have hreadable := ofBytes_readable h
  have hread : manifest.NamesFit → ofBytes manifest.toBytes = .ok manifest.normal := by
    intro hfit
    rw [hreadable.ofBytes_toBytes_eq, readLines_append (hreadable.reads_lines hfit 1)]
    simp [readLines, readLine, stripReturn, Except.map, Progress.finish, Progress.endSection, normal,
      bind, Except.bind]
  have hrefused : ¬ manifest.NamesFit → ∃ error, ofBytes manifest.toBytes = .error error := by
    intro hlong
    obtain ⟨attr, hattr, hwidth⟩ : ∃ attr ∈ manifest.normal.main ++ manifest.normal.sections.flatten,
        70 < width attr.1.toList := by
      simpa [NamesFit, width] using hlong
    obtain ⟨hplain, hlines⟩ := hreadable.plain_of_mem hattr
    obtain ⟨line, hline, hrefused⟩ := refused_attrLines hplain (Nat.add_lt_add_right hwidth 2)
    have hmem : line ++ ['\r'] ∈ manifest.lines.map (· ++ ['\r']) :=
      List.mem_map.mpr ⟨line, hlines line hline, rfl⟩
    obtain ⟨error, herror⟩ := refused_lines hrefused (List.mem_append_left [[]] hmem) {} 1
    exact ⟨error, by rw [hreadable.ofBytes_toBytes_eq, herror]; rfl⟩
  refine ⟨⟨manifest.lines, ?_, fun line hline => ?_⟩, ⟨fun hok => ?_, hread⟩, hrefused⟩
  · rw [toBytes, Utf8.encode, toList_text, List.flatMap_assoc]
    rfl
  · obtain ⟨honeLine, hshort, hmoves⟩ := hreadable.lines_fit line hline
    exact ⟨honeLine, hshort, hmoves⟩
  · by_contra hlong
    obtain ⟨error, herror⟩ := hrefused hlong
    cases hok.symm.trans herror

/-- A manifest in an order and a spelling of its own, with a line of more than 72 bytes. -/
def windingManifest : Manifest where
  main :=
    [("Class-Path", "lib/é.jar lib/somewhere/else.jar lib/and/further/on.jar lib/up/to/the/end.jar"),
      ("manifest-version", "2.0")]
  sections := [[("Name", "a/B.class"), ("Sealed", "true: \r")]]

/-- A text that it is read from, which breaks its lines elsewhere. -/
def windingText : String :=
  "Class-Path: lib/é.jar lib/somewhere/else.jar lib/and/further/on\n" ++
    " .jar lib/up/to/the/end.jar\nmanifest-version: 2.0\n\nName: a/B.class\nSealed: true: \r\r\n\n"

/-- It is read from that text, and again from what is written for it. -/
theorem survives_writing_windingManifest :
    ofBytes (Utf8.encode windingText) = .ok windingManifest ∧ windingManifest.NamesFit ∧
      ofBytes windingManifest.toBytes = .ok windingManifest.normal := by
  have hread : ofBytes (Utf8.encode windingText) = .ok windingManifest := by cbv
  have hfit : windingManifest.NamesFit := by
    unfold NamesFit
    decide +kernel
  exact ⟨hread, hfit, (survives_writing hread).2.1.mpr hfit⟩

end Manifest

end Downlevel
