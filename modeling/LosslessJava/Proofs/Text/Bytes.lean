import LosslessJava.Location

/-!
# Bytes of texts

A byte offset between two characters cuts a text in two, so the text between two such offsets can be
read off the parts.

* `takeBytes_append`, `dropBytes_append`, `sliceBytes_append`: the parts of a text.
-/

namespace LosslessJava

theorem byteLength_append (cs ds : List Char) :
    byteLength (cs ++ ds) = byteLength cs + byteLength ds := by
  induction cs with
  | nil => simp [byteLength]
  | cons c cs ih => rw [List.cons_append, byteLength, byteLength, ih, Nat.add_assoc]

theorem byteLength_toList (s : String) : byteLength s.toList = s.utf8ByteSize := by
  have hofList : ∀ cs : List Char, byteLength cs = (String.ofList cs).utf8ByteSize := by
    intro cs
    induction cs with
    | nil => simp [byteLength]
    | cons c cs ih =>
      rw [byteLength, ih, ← List.singleton_append, String.ofList_append,
        String.utf8ByteSize_append, ← String.singleton_eq_ofList, String.utf8ByteSize_singleton]
  rw [hofList, String.ofList_toList]

theorem takeBytes_append (before after : List Char) :
    takeBytes (byteLength before) (before ++ after) = before := by
  induction before with
  | nil =>
    cases after with
    | nil => rfl
    | cons c cs =>
      have hpos := c.utf8Size_pos
      rw [List.nil_append, byteLength, takeBytes, if_neg (by omega)]
  | cons c cs ih =>
    rw [List.cons_append, byteLength, takeBytes, if_pos (Nat.le_add_right _ _),
      Nat.add_sub_cancel_left, ih]

theorem dropBytes_append (before after : List Char) :
    dropBytes (byteLength before) (before ++ after) = after := by
  induction before with
  | nil =>
    cases after with
    | nil => rfl
    | cons c cs =>
      have hpos := c.utf8Size_pos
      rw [List.nil_append, byteLength, dropBytes, if_neg (by omega)]
  | cons c cs ih =>
    rw [List.cons_append, byteLength, dropBytes, if_pos (Nat.le_add_right _ _),
      Nat.add_sub_cancel_left, ih]

/-- What lies between two parts of a text is between their offsets. -/
theorem sliceBytes_append (before between after : List Char) :
    sliceBytes (byteLength before) (byteLength before + byteLength between)
      (before ++ (between ++ after)) = between := by
  rw [sliceBytes, dropBytes_append, Nat.add_sub_cancel_left, takeBytes_append]

theorem sliceBytes_self (offset : Nat) (source : List Char) :
    sliceBytes offset offset source = [] := by
  rw [sliceBytes, Nat.sub_self]
  cases h : dropBytes offset source with
  | nil => rfl
  | cons c cs =>
    have hpos := c.utf8Size_pos
    rw [takeBytes, if_neg (by omega)]

end LosslessJava
