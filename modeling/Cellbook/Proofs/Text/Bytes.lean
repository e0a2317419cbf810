import Cellbook.Source.Node

/-!
# Parts of a text

Between the bytes at which characters begin stand whole characters. So no span cuts one in two, and the part of the
source that a node covers has exactly the characters in the span of the node, however many bytes they take
(`Node.sourceText?_eq`).
-/

namespace Cellbook

theorem Span.take_append_slice {s : Span} (h : s.start ≤ s.stop) (cs : List Char) :
    cs.take s.start ++ s.slice cs = cs.take s.stop := by
  have htake : cs.take s.start = (cs.take s.stop).take s.start := by
    rw [List.take_take, Nat.min_eq_left h]
  rw [htake, slice, List.take_append_drop]

theorem Span.slice_eq_nil {s : Span} (h : s.stop ≤ s.start) (cs : List Char) : s.slice cs = [] := by
  refine List.drop_eq_nil_of_le ?_
  rw [List.length_take]
  omega

namespace Text

theorem size_utf8Encode_cons (c : Char) (cs : List Char) :
    (c :: cs).utf8Encode.size = c.utf8Size + cs.utf8Encode.size := by
  rw [List.utf8Encode_cons, ByteArray.size_append, List.utf8Encode_singleton, List.size_toByteArray,
    String.length_utf8EncodeChar]

/-- As many bytes are in front of a character as the characters in front of it take. -/
theorem byteIndices_getElem? {start i : Nat} {cs : List Char} (hi : i ≤ cs.length) :
    (byteIndices start cs)[i]? = some (start + (cs.take i).utf8Encode.size) := by
  induction cs generalizing start i with
  | nil =>
    cases Nat.le_zero.mp hi
    simp [byteIndices]
  | cons c cs ih =>
    cases i with
    | zero => simp [byteIndices]
    | succ i =>
      rw [byteIndices, List.getElem?_cons_succ, ih (Nat.le_of_succ_le_succ hi), List.take_succ_cons,
        size_utf8Encode_cons, Nat.add_assoc]

theorem length_byteIndices (start : Nat) (cs : List Char) : (byteIndices start cs).length = cs.length + 1 := by
  induction cs generalizing start with
  | nil => rfl
  | cons c cs ih => rw [byteIndices, List.length_cons, ih, List.length_cons]

theorem byteIndex_eq (s : String) (i : Nat) : byteIndex s i = (s.toList.take i).utf8Encode.size := by
  unfold byteIndex
  by_cases hi : i ≤ s.toList.length
  · rw [byteIndices_getElem? hi, Option.getD_some, Nat.zero_add]
  · have hbeyond : (byteIndices 0 s.toList).length ≤ i := by
      rw [length_byteIndices]
      omega
    rw [List.getElem?_eq_none hbeyond, Option.getD_none, List.take_of_length_le (Nat.le_of_not_le hi),
      String.utf8Encode_toList, String.size_toByteArray]

theorem byteIndex_mono (s : String) {i j : Nat} (h : i ≤ j) : byteIndex s i ≤ byteIndex s j := by
  have htake : s.toList.take i ++ (Span.mk i j).slice s.toList = s.toList.take j :=
    Span.take_append_slice (s := ⟨i, j⟩) h _
  rw [byteIndex_eq, byteIndex_eq, ← htake, List.utf8Encode_append, ByteArray.size_append]
  exact Nat.le_add_right _ _

/-- What stands between two bytes is cut out whole if characters stand there. -/
theorem between?_eq {s : String} (front part back : List Char) (h : s.toList = front ++ part ++ back) :
    between? s front.utf8Encode.size (front ++ part).utf8Encode.size = some (String.ofList part) := by
  have hbytes : s.toUTF8 = front.utf8Encode ++ part.utf8Encode ++ back.utf8Encode := by
    rw [String.toUTF8, ← String.utf8Encode_toList, h, List.utf8Encode_append, List.utf8Encode_append]
  have hpart : s.toUTF8.extract front.utf8Encode.size (front ++ part).utf8Encode.size = part.utf8Encode := by
    rw [hbytes, List.utf8Encode_append, ByteArray.extract_append, ByteArray.size_append, Nat.sub_self]
    rw [ByteArray.extract_append_eq_right rfl rfl]
    simp
  have hvalid : part.utf8Encode.IsValidUTF8 := ByteArray.isValidUTF8_utf8Encode
  rw [between?, hpart, String.fromUTF8?, dif_pos hvalid]
  rfl

end Text

/-- **The part of the source that a node covers** has the characters in its span. No character is cut in two,
wherever the span is. -/
theorem Node.sourceText?_eq (n : Node) (source : String) :
    n.sourceText? source = some (String.ofList (n.span.slice source.toList)) := by
  unfold sourceText?
  dsimp only
  rcases Nat.le_total n.span.start n.span.stop with h | h
  · rw [Nat.max_eq_left (Text.byteIndex_mono source h), Text.byteIndex_eq, Text.byteIndex_eq,
      ← Span.take_append_slice h]
    refine Text.between?_eq _ _ (source.toList.drop n.span.stop) ?_
    rw [Span.take_append_slice h, List.take_append_drop]
  · rw [Nat.max_eq_right (Text.byteIndex_mono source h), Span.slice_eq_nil h, Text.byteIndex_eq]
    have hempty := Text.between?_eq (s := source) (source.toList.take n.span.start) [] (source.toList.drop n.span.start)
    rw [List.append_nil, List.take_append_drop] at hempty
    exact hempty rfl

end Cellbook
