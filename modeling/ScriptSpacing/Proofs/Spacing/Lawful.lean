import ScriptSpacing.Proofs.Spacing.RecordReading

/-!
# `Proofs.Spacing.Lawful` — the reader keeps the laws of readers

A file is a record of records of amounts, and each of these is read as its form says. So the reader gives what the
layout of a text holds, or stops at the first integer that cannot be converted; this is all that is relied on of a
reader (`reader_lawful`).
-/

namespace ScriptSpacing
namespace PresetFile
open Json

variable {convert : Conversion}

/-- **The reader of both sides does what their form says.** -/
theorem readSides_reads (convert : Conversion) : Reads convert (readSides convert) (SidesLayout.form convert) where
  head l := by
    cases l with
    | object fields last once => exact ⟨'\x7b', _, rfl, .inl rfl⟩
    | list elements last fits => exact ⟨'[', _, rfl, .inr rfl⟩
  sound h := by
    obtain ⟨⟨fs, k₁⟩, hfields, ⟨⟩⟩ := bind_eq_ok.mp h
    obtain ⟨b, d, hb, hk, hbad, hfs⟩ := Record.readFields_sound (readAmounts_reads convert) hfields
    refine ⟨b, d, hb, hk, hbad, ?_⟩
    rw [hfs, hfs]
    rfl
  complete l b rest i h hb := by
    obtain ⟨fs, j, hread, hfs⟩ :=
      Record.readFields_complete (r := sides convert) (readAmounts_reads convert) l h hb rest i
    refine ⟨j, bind_eq_ok.mpr ⟨_, hread, ?_⟩⟩
    simp only [hfs]
    rfl
  refuses l v e h he := by
    refine (Record.readFields_refuses (r := sides convert) (readAmounts_reads convert) l h he).imp
      fun front hread => ?_
    intro b rest i hb hrest
    obtain ⟨j, hstop⟩ := hread b rest i hb hrest
    exact ⟨j, by rw [readSides, hstop]; rfl⟩

/-- **A file whose integers can be converted is read as its layout says.** -/
theorem reader_complete (d : FileLayout) (h : ∀ v ∈ d.integers, ∃ a, convert v = .ok a) :
    reader convert d.text = .ok (d.content convert) := by
  obtain ⟨fs, j, hread, hfs⟩ := Record.readFields_complete (r := file convert) (readSides_reads convert) d.record
    (firstBad?_eq_none_iff.mpr h) d.before.isBlanks d.after.written 0
  have hfields : (file convert).readFields (Cursor.start d.text) = .ok (fs, ⟨d.after.written, j⟩) := by
    rw [Cursor.start, FileLayout.text, String.toList_ofList]
    exact hread
  have hfinish : finish ⟨d.after.written, j⟩ = .ok () := finish_eq_ok_iff.mpr d.after.isBlanks
  rw [reader, hfields, ok_bind]
  simp only [hfinish, hfs]
  rfl

/-- **Every text that is read is that of a file** whose integers can be converted. -/
theorem reader_sound {text : String} {q : Preset} (h : reader convert text = .ok q) :
    ∃ d : FileLayout, d.text = text ∧ (∀ v ∈ d.integers, ∃ a, convert v = .ok a) ∧ q = d.content convert := by
  obtain ⟨⟨fs, k⟩, hfields, hrest⟩ := bind_eq_ok.mp h
  obtain ⟨u, hfinish, ⟨⟩⟩ := bind_eq_ok.mp hrest
  obtain ⟨b, d, hb, hk, hbad, hfs⟩ := Record.readFields_sound (readSides_reads convert) hfields
  have hafter : IsBlanks k.rest := finish_eq_ok_iff.mp (ok_of_orRefuse hfinish)
  refine ⟨⟨⟨b, hb⟩, d, ⟨k.rest, hafter⟩⟩, ?_, firstBad?_eq_none_iff.mp hbad, ?_⟩
  · have htext : text.toList = b ++ (d.text (SidesLayout.form convert).text ++ k.rest) := hk
    rw [← String.ofList_toList (s := text), htext]
    rfl
  · rw [hfs]
    rfl

/-- **The first integer that cannot be converted refuses the file**, whatever follows it. -/
theorem reader_refuses (d : FileLayout) {v : Int} {e : InvalidAmount} (h : firstBad? convert d.integers = some v)
    (he : convert v = .error e) :
    ∃ front back, d.text = String.ofList (front ++ back) ∧ EndsWith v front ∧ Stops back ∧
      ∀ rest, Stops rest → ∃ r, reader convert (String.ofList (front ++ rest)) = .error r ∧ r.cause = .amount e := by
  obtain ⟨front, back, htext, hfront, hback, hread⟩ :=
    Record.readFields_refuses (r := file convert) (readSides_reads convert) d.record h he
  refine ⟨d.before.written ++ front, back ++ d.after.written, ?_, hfront.append _,
    hback.append (by simpa only [List.append_nil] using stops_of_blanks d.after.isBlanks endsRun_nil),
    fun rest hrest => ?_⟩
  · have hrecord : d.record.text (·.text AmountsLayout.text) = front ++ back := htext
    rw [FileLayout.text, hrecord]
    simp only [List.append_assoc]
  · obtain ⟨j, hstop⟩ := hread d.before.written rest 0 d.before.isBlanks hrest
    refine ⟨⟨.amount e, j⟩, ?_, rfl⟩
    rw [reader, Cursor.start, String.toList_ofList, List.append_assoc, hstop]
    rfl

/-- **The reader keeps the laws of readers.** -/
theorem reader_lawful : reader.Lawful where
  distinct h := by
    obtain ⟨d, -, -, rfl⟩ := reader_sound h
    exact d.distinct_content _
  sound h := by
    obtain ⟨d, htext, hconverts, -⟩ := reader_sound h
    exact ⟨d, htext, hconverts⟩
  complete d h := ⟨_, reader_complete d h, FileLayout.get?_content_of_converts h⟩
  refuses d _ _ _ _ hd hgood he := reader_refuses d (hd ▸ firstBad?_of_split hgood he _) he

end PresetFile
end ScriptSpacing
