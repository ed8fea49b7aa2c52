import Downlevel.Descriptor.Grammar
import Downlevel.Proofs.Outcome

/-!
# Descriptors and the types they are read as

A type that is read takes up just the characters that it is written with.

* `JavaType.write_of_parse` — a descriptor is what the type that is read from it is written as.
-/

namespace Downlevel

namespace BaseType

/-- A name that is split off, the semicolon and what follows are what was there. -/
theorem append_of_splitName {done chars name : List Char} {after : Shorter chars}
    (h : splitName done chars = some (name, after)) :
    done.reverse ++ chars = name ++ ';' :: after.val := by
  induction chars generalizing done with
  | nil => cases h
  | cons c rest ih =>
      unfold splitName at h
      split at h
      next hc =>
        cases h
        rw [hc]
      next =>
        split at h
        next name' after' _ hsplit =>
          cases h
          have hrest := ih hsplit
          simpa using hrest
        next => cases h

/-- A letter stands for the type that is written as that letter. -/
theorem write_of_ofLetter {letter : Char} {type : BaseType} (h : ofLetter? letter = some type) :
    type.write.toList = [letter] := by
  unfold ofLetter? at h
  split at h <;> cases h <;> rfl

/-- A type that is no array takes up the characters that it is written with. -/
theorem append_of_read {chars : List Char} {type : BaseType} {after : Shorter chars}
    (h : read chars = .ok (type, after)) : chars = type.write.toList ++ after.val := by
  cases chars with
  | nil => cases h
  | cons c rest =>
      rw [read] at h
      by_cases hc : c = 'L'
      · rw [if_pos hc] at h
        split at h
        next => cases h
        next name after' _ hsplit =>
          split at h
          next => cases h
          next =>
            cases h
            have hname := append_of_splitName hsplit
            simp only [List.reverse_nil, List.nil_append] at hname
            simp [write, hc, hname]
      · rw [if_neg hc] at h
        split at h
        next type' htype =>
          cases h
          rw [write_of_ofLetter htype]
          rfl
        next => cases h

end BaseType

/-- The brackets in front, and what follows them, are what was there. -/
theorem append_of_countBrackets {count total : Nat} {chars : List Char}
    {after : { rest : List Char // rest.length ≤ chars.length }}
    (h : countBrackets count chars = (total, after)) :
    List.replicate count '[' ++ chars = List.replicate total '[' ++ after.val := by
  fun_induction countBrackets count chars generalizing total with
  | case1 count rest total' after' hlength hrest ih =>
      cases h
      rw [← ih hrest, List.replicate_succ', List.append_assoc]
      rfl
  | case2 =>
      cases h
      rfl

namespace JavaType

/-- A type takes up the characters that it is written with. -/
theorem append_of_read {chars : List Char} {type : JavaType} {after : Shorter chars}
    (h : read chars = .ok (type, after)) : chars = type.write.toList ++ after.val := by
  unfold read at h
  split at h
  next dimensions rest hlength hbrackets =>
    split at h
    next => cases h
    next =>
      split at h
      next => cases h
      next base after' _ hbase =>
        cases h
        have hchars := append_of_countBrackets hbrackets
        have hrest := BaseType.append_of_read hbase
        calc chars = List.replicate dimensions '[' ++ rest := hchars
          _ = List.replicate dimensions '[' ++ (base.write.toList ++ after') := by rw [← hrest]
          _ = (write ⟨dimensions, base⟩).toList ++ after' := by simp [write]

/-- **A descriptor is what the type that is read from it is written as.** -/
theorem write_of_parse {descriptor : String} {type : JavaType}
    (h : parse descriptor = .ok type) : type.write = descriptor := by
  unfold parse at h
  split at h
  next => cases h
  next type' _ hread =>
    cases h
    have hchars := append_of_read hread
    rw [List.append_nil] at hchars
    exact String.toList_inj.mp hchars.symm
  next => cases h

end JavaType

end Downlevel
