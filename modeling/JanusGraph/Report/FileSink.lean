import Mathlib.Data.List.Infix
import Mathlib.Data.Nat.Notation
import Mathlib.Data.Int.Notation

/-!
# The report log

`FileSink` of `report/sinks/file.py`. A record goes to the end of the log; a log that is full is
renamed first, and takes the place of the one before it. Nothing of `emit` is awaited, so that the
emits of a process follow each other, and whatever raises is swallowed. `json.dumps` writes ASCII,
so that a size in bytes is a number of characters.
-/

namespace JanusGraph

/-- The texts of the log and of the one before it, as far as the files exist. -/
structure LogFiles : Type where
  current : Option (List Char)
  rotated : Option (List Char)
  deriving DecidableEq

/-- Which calls of one `emit` raise. A process that ends within `emit` leaves what one leaves in
which everything raises from there on. -/
structure EmitFaults : Type where
  mkdir : Bool := false
  /-- `path.exists()` or `path.stat()` -/
  stat : Bool := false
  /-- `rotated.exists()` -/
  statRotated : Bool := false
  unlink : Bool := false
  rename : Bool := false
  toDict : Bool := false
  openLog : Bool := false
  /-- `f.write`, when so many characters have reached the file -/
  write : Option ℕ := none

namespace LogFiles

/-- What the two files hold, oldest first. -/
def text (files : LogFiles) : List Char := files.rotated.getD [] ++ files.current.getD []

/-- `_rotate_if_needed`; nothing if it raises. -/
def rotateIfNeeded (maxBytes : ℤ) (faults : EmitFaults) (files : LogFiles) : Option LogFiles :=
  if faults.stat then none
  else
    match files.current with
    | none => some files
    | some text =>
      if maxBytes ≤ text.length then
        if faults.statRotated then some files
        else if files.rotated.isSome ∧ faults.unlink then some files
        else if faults.rename then some { files with rotated := none }
        else some ⟨none, some text⟩
      else some files

/-- What `emit` has to write: nothing, if `json.dumps` raises. -/
def line (record : Option (List Char)) : List Char := (record.map (· ++ ['\n'])).getD []

/-- `emit`: the files afterwards, and what was written. The record is the text of `json.dumps`,
if that does not raise. -/
def emit (maxBytes : ℤ) (faults : EmitFaults) (record : Option (List Char)) (files : LogFiles) :
    LogFiles × List Char :=
  if faults.mkdir then (files, [])
  else
    match files.rotateIfNeeded maxBytes faults with
    | none => (files, [])
    | some files =>
      if faults.toDict ∨ faults.openLog then (files, [])
      else
        let written := (line record).take (faults.write.getD (line record).length)
        ({ files with current := some (files.current.getD [] ++ written) }, written)

/-- A run of emits: the files afterwards, and all that was written. -/
def emitAll (maxBytes : ℤ) : List (EmitFaults × Option (List Char)) → LogFiles →
    LogFiles × List Char
  | [], files => (files, [])
  | (faults, record) :: emits, files =>
    let first := files.emit maxBytes faults record
    let rest := emitAll maxBytes emits first.1
    (rest.1, first.2 ++ rest.2)

variable {maxBytes : ℤ} {faults : EmitFaults} {files files' : LogFiles}

/-! ## A rotation -/

/-- A rotation keeps all, or all of the full log. -/
theorem rotateIfNeeded_text (h : files.rotateIfNeeded maxBytes faults = some files') :
    files'.text = files.text ∨ files'.text <:+ files.text ∧ maxBytes ≤ files'.text.length := by
  rw [rotateIfNeeded] at h
  split at h
  · cases h
  rcases hcurrent : files.current with _ | text
  · rw [hcurrent] at h
    exact .inl (Option.some.inj h ▸ rfl)
  rw [hcurrent] at h
  have hlast : files.text = files.rotated.getD [] ++ text := by rw [LogFiles.text, hcurrent]; rfl
  dsimp only at h
  split at h
  · next hfull =>
    split at h
    · exact .inl (Option.some.inj h ▸ rfl)
    split at h
    · exact .inl (Option.some.inj h ▸ rfl)
    -- the full log is what is left, under its name or under the other
    split at h
    · obtain rfl := Option.some.inj h
      have htext : LogFiles.text ⟨some text, none⟩ = text := List.nil_append _
      rw [htext, hlast]
      exact .inr ⟨List.suffix_append _ _, hfull⟩
    · obtain rfl := Option.some.inj h
      have htext : LogFiles.text ⟨none, some text⟩ = text := List.append_nil _
      rw [htext, hlast]
      exact .inr ⟨List.suffix_append _ _, hfull⟩
  · exact .inl (Option.some.inj h ▸ rfl)

/-! ## An emit -/

/-- What an emit writes comes last. -/
theorem emit_text (files : LogFiles) (record : Option (List Char)) :
    (files.emit maxBytes faults record).1.text =
        files.text ++ (files.emit maxBytes faults record).2 ∨
      (files.emit maxBytes faults record).1.text <:+
          files.text ++ (files.emit maxBytes faults record).2 ∧
        maxBytes ≤ (files.emit maxBytes faults record).1.text.length := by
  rw [emit]
  split
  · exact .inl (List.append_nil _).symm
  rcases hrotate : files.rotateIfNeeded maxBytes faults with _ | files'
  · exact .inl (List.append_nil _).symm
  have hkept := rotateIfNeeded_text hrotate
  dsimp only
  split
  · rwa [List.append_nil]
  · dsimp only
    generalize (line record).take (faults.write.getD (line record).length) = written
    have htext : LogFiles.text { files' with current := some (files'.current.getD [] ++ written) } =
        files'.text ++ written := (List.append_assoc _ _ _).symm
    rw [htext]
    rcases hkept with hsame | ⟨⟨dropped, hdropped⟩, hfull⟩
    · exact .inl (by rw [hsame])
    · refine .inr ⟨⟨dropped, by rw [← List.append_assoc, hdropped]⟩, ?_⟩
      rw [List.length_append]
      omega

/-! ## A run -/

theorem emitAll_text (emits : List (EmitFaults × Option (List Char))) (files : LogFiles) :
    (files.emitAll maxBytes emits).1.text = files.text ++ (files.emitAll maxBytes emits).2 ∨
      (files.emitAll maxBytes emits).1.text <:+ files.text ++ (files.emitAll maxBytes emits).2 ∧
        maxBytes ≤ (files.emitAll maxBytes emits).1.text.length := by
  induction emits generalizing files with
  | nil => exact .inl (List.append_nil _).symm
  | cons first emits ih =>
    obtain ⟨faults, record⟩ := first
    rw [emitAll]
    dsimp only
    rw [← List.append_assoc]
    have hrest := ih (files.emit maxBytes faults record).1
    rcases files.emit_text record with hall | ⟨hsuffix, hfull⟩
    · rwa [hall] at hrest
    · have hmore : (files.emit maxBytes faults record).1.text ++
            ((files.emit maxBytes faults record).1.emitAll maxBytes emits).2 <:+
          files.text ++ (files.emit maxBytes faults record).2 ++
            ((files.emit maxBytes faults record).1.emitAll maxBytes emits).2 :=
        List.suffix_append_self_iff.mpr hsuffix
      rcases hrest with hsame | ⟨hrest, hfull'⟩
      · refine .inr ⟨hsame ▸ hmore, ?_⟩
        rw [hsame, List.length_append]
        omega
      · exact .inr ⟨hrest.trans hmore, hfull'⟩

end LogFiles

/-- Nothing of a rotation raises. -/
def EmitFaults.Rotates (faults : EmitFaults) : Prop :=
  faults.stat = false ∧ faults.statRotated = false ∧ faults.unlink = false ∧ faults.rename = false

/-- Neither file is longer than a log that is not yet full, and one line. -/
def LogFiles.Within (maxBytes : ℤ) (longest : ℕ) (files : LogFiles) : Prop :=
  (∀ text, files.current = some text → text.length ≤ (maxBytes - 1).toNat + longest) ∧
    ∀ text, files.rotated = some text → text.length ≤ (maxBytes - 1).toNat + longest

namespace LogFiles

variable {maxBytes : ℤ} {faults : EmitFaults} {files files' : LogFiles} {longest : ℕ}

theorem Within.rotate (h : files.Within maxBytes longest) (hrotates : faults.Rotates)
    (hrotate : files.rotateIfNeeded maxBytes faults = some files') :
    files'.Within maxBytes longest ∧
      ∀ text, files'.current = some text → text.length ≤ (maxBytes - 1).toNat := by
  obtain ⟨hstat, hstatRotated, hunlink, hrename⟩ := hrotates
  rw [rotateIfNeeded, if_neg (by simp [hstat])] at hrotate
  rcases hcurrent : files.current with _ | text
  · rw [hcurrent] at hrotate
    obtain rfl := Option.some.inj hrotate
    exact ⟨h, by simp [hcurrent]⟩
  rw [hcurrent] at hrotate
  dsimp only at hrotate
  split at hrotate
  · rw [if_neg (by simp [hstatRotated]), if_neg (by simp [hunlink]), if_neg (by simp [hrename])]
      at hrotate
    obtain rfl := Option.some.inj hrotate
    refine ⟨⟨nofun, fun text' htext' => ?_⟩, nofun⟩
    exact Option.some.inj htext' ▸ h.1 text hcurrent
  · next hroom =>
    obtain rfl := Option.some.inj hrotate
    refine ⟨h, fun text' htext' => ?_⟩
    obtain rfl := Option.some.inj (hcurrent.symm.trans htext')
    omega

theorem Within.emit (h : files.Within maxBytes longest) (hrotates : faults.Rotates)
    {record : Option (List Char)} (hline : (line record).length ≤ longest) :
    (files.emit maxBytes faults record).1.Within maxBytes longest := by
  rw [LogFiles.emit]
  split
  · exact h
  rcases hrotate : files.rotateIfNeeded maxBytes faults with _ | files'
  · exact h
  obtain ⟨h', hroom⟩ := h.rotate hrotates hrotate
  dsimp only
  split
  · exact h'
  · refine ⟨fun text htext => ?_, h'.2⟩
    obtain rfl := Option.some.inj htext
    have hbefore : (files'.current.getD []).length ≤ (maxBytes - 1).toNat := by
      rcases hcurrent : files'.current with _ | text
      · exact Nat.zero_le _
      · exact hroom text hcurrent
    rw [List.length_append, List.length_take]
    omega

theorem Within.emitAll {emits : List (EmitFaults × Option (List Char))} {files : LogFiles}
    (h : files.Within maxBytes longest)
    (hemits : ∀ emit ∈ emits, emit.1.Rotates ∧ (line emit.2).length ≤ longest) :
    (files.emitAll maxBytes emits).1.Within maxBytes longest := by
  induction emits generalizing files with
  | nil => exact h
  | cons first emits ih =>
    obtain ⟨⟨hrotates, hline⟩, hrest⟩ := List.forall_mem_cons.mp hemits
    exact ih (h.emit hrotates hline) hrest

end LogFiles

/-- **The log keeps the latest records.** Whatever raises in a run of emits, and wherever it ends:
the log and the one before it together are an end of all that was written, and either all of it or
at least `rotation_max_bytes` of it. As long as no rotation fails, neither file is longer than that
and one line. -/
theorem fileSink_keeps (maxBytes : ℤ) (files : LogFiles)
    (emits : List (EmitFaults × Option (List Char))) :
    ((files.emitAll maxBytes emits).1.text <:+ files.text ++ (files.emitAll maxBytes emits).2 ∧
        ((files.emitAll maxBytes emits).1.text = files.text ++ (files.emitAll maxBytes emits).2 ∨
          maxBytes ≤ (files.emitAll maxBytes emits).1.text.length)) ∧
      ∀ longest, files.Within maxBytes longest →
        (∀ emit ∈ emits, emit.1.Rotates ∧ (LogFiles.line emit.2).length ≤ longest) →
        (files.emitAll maxBytes emits).1.Within maxBytes longest := by
  refine ⟨?_, fun longest hwithin hemits => hwithin.emitAll hemits⟩
  rcases LogFiles.emitAll_text emits files with hall | ⟨hsuffix, hfull⟩
  · exact ⟨hall ▸ List.suffix_rfl, .inl hall⟩
  · exact ⟨hsuffix, .inr hfull⟩

end JanusGraph
