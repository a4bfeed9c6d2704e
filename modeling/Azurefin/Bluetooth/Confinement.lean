import Azurefin.Bluetooth.Format

/-!
# Reading the factory storage is confined

Whatever the device answers, `read_factory` ends with a valid address or a `ValueError`, and it
asks for nothing but the two probed sectors, the partition table, and parts of the two
partitions found in the table: `readFactory_confined`.
-/

namespace Azurefin

open Act

/-! ## Permitted requests -/

/-- The sector at 512 or at 4096 is probed. -/
def Request.IsProbe (q : Request) : Prop := q.offset = q.size ∧ (q.size = 512 ∨ q.size = 4096)

/-- The request `q` is for the entry table that the answer to `h` describes, below the first
usable sector. -/
structure Request.IsTable (h q : Request) : Prop where
  offset : q.offset = (Gpt.ofHeader h.answer).table * h.size
  size : q.size = (Gpt.ofHeader h.answer).count * (Gpt.ofHeader h.answer).entrySize
  behind : 2 * h.size ≤ q.offset
  below : q.offset + q.size ≤ (Gpt.ofHeader h.answer).first * h.size

/-- The answer to `t`, the table of `h`, has `e` as a partition with one of the names, within the
usable sectors. -/
def Request.HasPartition (h t : Request) (e : Extent) : Prop :=
  ∃ i < (Gpt.ofHeader h.answer).count, ∃ n, IsNamed (Gpt.ofHeader h.answer) t.answer n i ∧
    IsUsable (Gpt.ofHeader h.answer) t.answer i ∧
      e = entryExtent h.size (Gpt.ofHeader h.answer) t.answer i

/-- The request is for a probed sector, for a table that a probe showed, or for a part of a
partition that a table showed. -/
inductive Permitted (log : List Request) (q : Request) : Prop where
  | probe (hq : q.IsProbe)
  | table (h : Request) (hh : h ∈ log) (hprobe : h.IsProbe) (hq : h.IsTable q)
  | partition (h : Request) (hh : h ∈ log) (hprobe : h.IsProbe) (t : Request) (ht : t ∈ log)
      (htable : h.IsTable t) (e : Extent) (he : h.HasPartition t e)
      (hq : e.base ≤ q.offset ∧ q.offset + q.size ≤ e.base + e.length)

/-- All requests of a session are permitted, lie on the device, and are within the budget. -/
structure Confined (r : Reader) (s : Session) : Prop where
  budget : s.remaining + (s.requests.map Request.size).sum = 2 * 1024 ^ 2
  inside : ∀ q ∈ s.requests, 0 < q.size ∧ q.offset + q.size ≤ r.size
  permitted : ∀ q ∈ s.requests, Permitted s.requests q

theorem Permitted.mono {log log' : List Request} {q : Request} (h : Permitted log q)
    (hsub : log ⊆ log') : Permitted log' q := by
  cases h with
  | probe hq => exact .probe hq
  | table h hh hprobe hq => exact .table h (hsub hh) hprobe hq
  | partition h hh hprobe t ht htable e he hq =>
    exact .partition h (hsub hh) hprobe t (hsub ht) htable e he hq

/-- Whether a request is permitted does not depend on its own answer. -/
theorem Permitted.answer {log : List Request} {offset size : Nat} {a b : Bytes}
    (h : Permitted log ⟨offset, size, a⟩) : Permitted log ⟨offset, size, b⟩ := by
  cases h with
  | probe hq => exact .probe hq
  | table h hh hprobe hq => exact .table h hh hprobe ⟨hq.offset, hq.size, hq.behind, hq.below⟩
  | partition h hh hprobe t ht htable e he hq => exact .partition h hh hprobe t ht htable e he hq

variable {r : Reader} {known : List Request}

/-- The session is confined, and these requests have been made. -/
def Knows (r : Reader) (known : List Request) (s : Session) : Prop :=
  Confined r s ∧ known ⊆ s.requests

/-- The reading may fail with a `ValueError`. -/
def Refuses (r : Reader) (e : PyError) (s : Session) : Prop :=
  e.isValueError = true ∧ Confined r s

theorem confined_start : Confined r Session.start :=
  ⟨rfl, fun _ hq => (List.not_mem_nil hq).elim, fun _ hq => (List.not_mem_nil hq).elim⟩

/-! ## Reading -/

/-- A permitted request keeps the session confined. -/
theorem Confined.request {s : Session} (h : Confined r s) {offset size : Nat} {data : Bytes}
    (hpos : 0 < size) (hsize : offset + size ≤ r.size) (hbudget : size ≤ s.remaining)
    (hperm : Permitted s.requests ⟨offset, size, data⟩) :
    Confined r ⟨s.remaining - size, s.requests ++ [⟨offset, size, data⟩]⟩ := by
  refine ⟨?_, fun q hq => ?_, fun q hq => ?_⟩
  · have := h.budget
    simp only [List.map_append, List.map_cons, List.map_nil, List.sum_append, List.sum_cons,
      List.sum_nil]
    omega
  · rcases List.mem_append.mp hq with hq | hq
    · exact h.inside q hq
    · rw [List.mem_singleton.mp hq]
      exact ⟨hpos, hsize⟩
  · refine Permitted.mono ?_ (List.subset_append_left _ _)
    rcases List.mem_append.mp hq with hq | hq
    · exact h.permitted q hq
    · rw [List.mem_singleton.mp hq]
      exact hperm

theorem read_knows {offset size : Nat} (hpos : 0 < size)
    (hperm : Permitted known ⟨offset, size, []⟩) :
    Act.Holds (Knows r known) (r.read offset size)
      (fun data s => data.length = size ∧ Knows r (⟨offset, size, data⟩ :: known) s)
      (Refuses r) := by
  refine .ite (fun _ => .raise fun s hs => ⟨rfl, hs.1⟩) fun hbounds => ?_
  refine .bind (M := fun s' s => s' = s ∧ Knows r known s) (.read fun s hs => ⟨rfl, hs⟩)
    fun s' => ?_
  refine .ite (fun _ => .raise fun s hs => ⟨rfl, hs.2.1⟩) fun hbudget => ?_
  refine .bind (M := fun data s => Knows r (⟨offset, size, data⟩ :: known) s) ?_ fun data => ?_
  · rintro s ⟨rfl, hs⟩
    have hle : offset + size ≤ r.size := by omega
    have hleft : size ≤ s'.remaining := by omega
    refine ⟨hs.1.request hpos hle hleft (hperm.mono hs.2).answer, ?_⟩
    exact List.cons_subset.mpr ⟨by simp, fun q hq => List.mem_append_left _ (hs.2 hq)⟩
  · refine .ite (fun _ => .raise fun s hs => ⟨rfl, hs.1⟩) fun hshort => .pure fun s hs => ⟨?_, hs⟩
    omega

theorem knows_mono {known' : List Request} (h : known' ⊆ known) {s : Session}
    (hs : Knows r known s) : Knows r known' s := ⟨hs.1, fun _ hq => hs.2 (h hq)⟩

/-- A computation on what has been read. -/
theorem ofExcept_knows {α : Type} {x : Except PyError α} (h : Checked x) :
    Act.Holds (Knows r known) (Act.ofExcept x) (fun a s => x = .ok a ∧ Knows r known s)
      (Refuses r) :=
  .ofExcept (fun _ _ hs ha => ⟨ha, hs⟩) fun _ e hs he => ⟨h e he, hs.1⟩

/-! ## The partitions -/

/-- The partitions are of a table that has been read. -/
def Located (r : Reader) (p : Partitions) (s : Session) : Prop :=
  ∃ h t, h.IsProbe ∧ h.IsTable t ∧ h.HasPartition t p.dpp ∧ h.HasPartition t p.dppBackup ∧
    Knows r [t, h] s

theorem Sole.hasPartition {h t : Request} {n : DppName} {e : Extent}
    (hs : Sole h.size (Gpt.ofHeader h.answer) t.answer (Gpt.ofHeader h.answer).count n e) :
    h.HasPartition t e := by
  obtain ⟨i, hi, hn, hu, he, -⟩ := hs
  exact ⟨i, hi, n, hn, hu, he⟩

theorem probeSectors_located {sectors : List Nat} (hs : ∀ s ∈ sectors, s = 512 ∨ s = 4096) :
    Act.Holds (Confined r) (probeSectors r sectors) (Located r) (Refuses r) := by
  induction sectors with
  | nil => exact .raise fun s hc => ⟨rfl, hc⟩
  | cons sector sectors ih =>
    have hsector := hs sector List.mem_cons_self
    have hprobe : ∀ data, Request.IsProbe ⟨sector, sector, data⟩ := fun _ => ⟨rfl, hsector⟩
    have hread : Act.Holds (Knows r []) (r.read sector sector) _ _ :=
      read_knows (by omega) (.probe (hprobe []))
    refine .bind (hread.weaken
      (fun s hc => ⟨hc, List.nil_subset _⟩) (fun _ _ h => h) fun _ _ h => h) fun header => ?_
    refine .assume fun hlen => .ite (fun _ => ?_) fun _ => ?_
    · exact (ih fun s hm => hs s (List.mem_cons_of_mem _ hm)).weaken (fun _ h => h.1)
        (fun _ _ h => h) fun _ _ h => h
    refine .bind (ofExcept_knows (checkHeader_checked (by omega))) fun g => .assume fun hg => ?_
    obtain ⟨hv, rfl⟩ := (checkHeader_eq_ok (by omega)).mp hg
    have htable : ∀ data, Request.IsTable ⟨sector, sector, header⟩
        ⟨(Gpt.ofHeader header).table * sector,
          (Gpt.ofHeader header).count * (Gpt.ofHeader header).entrySize, data⟩ :=
      fun _ => ⟨rfl, rfl, Nat.mul_le_mul_right _ hv.table.1, hv.table.2⟩
    have hpos : 0 < (Gpt.ofHeader header).count * (Gpt.ofHeader header).entrySize :=
      Nat.mul_pos hv.count.1 (by have := hv.entrySize.1; omega)
    refine .bind (read_knows hpos (.table _ List.mem_cons_self (hprobe header) (htable [])))
      fun entries => .assume fun hentries => ?_
    refine (ofExcept_knows (findPartitions_checked hentries hv.entrySize.1)).weaken
      (fun _ h => h) (fun p s h => ?_) fun _ _ h => h
    have htv := (findPartitions_eq_ok hentries hv.entrySize.1).mp h.1
    exact ⟨_, _, hprobe header, htable entries, Sole.hasPartition htv.dpp,
      Sole.hasPartition htv.dppBackup, h.2⟩

/-! ## The records -/

/-- What is read within the partition is permitted. -/
def MayRead (known : List Request) (p : Extent) : Prop :=
  ∀ offset size, offset + size ≤ p.length → Permitted known ⟨p.base + offset, size, []⟩

theorem readWithin_knows {p : Extent} (hp : MayRead known p) (offset size : Nat)
    (hpos : 0 < size) :
    Act.Holds (Knows r known) (readWithin r p offset size)
      (fun data s => data.length = size ∧ Knows r known s) (Refuses r) := by
  refine .ite (fun _ => .raise fun s hs => ⟨rfl, hs.1⟩) fun hbounds => ?_
  have hcast : (p.base : Int) + offset = (p.base + offset : Nat) := by omega
  rw [hcast]
  refine (read_knows hpos (hp offset size (by omega))).weaken (fun _ h => h)
    (fun _ _ h => ⟨h.1, knows_mono (List.subset_cons_self _ _) h.2⟩) fun _ _ h => h

theorem readRecord_knows {p : Extent} (hp : MayRead known p) :
    Act.Holds (Knows r known) (readRecord r p) (fun a s => ValidAddress a ∧ Knows r known s)
      (Refuses r) := by
  have hfirst : Act.Holds (Knows r known) (readWithin r p 0 68)
      (fun data s => data.length = 68 ∧ Knows r known s) (Refuses r) :=
    readWithin_knows hp 0 68 (by omega)
  refine .bind hfirst fun header => .assume fun hheader => ?_
  refine .bind (ofExcept_knows (secondOffset_checked (by omega))) fun second =>
    .assume fun _ => ?_
  have hsecond : Act.Holds (Knows r known) (readWithin r p second 68)
      (fun data s => data.length = 68 ∧ Knows r known s) (Refuses r) :=
    readWithin_knows hp second 68 (by omega)
  refine .bind hsecond fun header' => .assume fun hheader' => ?_
  refine .bind (ofExcept_knows (checkDirectory_checked (by omega))) fun d => .assume fun hd => ?_
  obtain ⟨hv, rfl⟩ := (checkDirectory_eq_ok (by omega)).mp hd
  refine .bind (readWithin_knows hp _ _ hv.size.1) fun entries => .assume fun hentries => ?_
  -- every match that the loop collects is a valid address
  refine .bind (M := fun found s => (∀ a ∈ found, ValidAddress a) ∧ Knows r known s)
    ((Act.Holds.foldlM (I := fun offsets found s => ((∀ o ∈ offsets, o + 244 ≤ entries.length) ∧
      ∀ a ∈ found, ValidAddress a) ∧ Knows r known s) (fun offset rest found => ?_) _ _).weaken
        (fun s hs => ⟨⟨?_, fun a ha => (List.not_mem_nil ha).elim⟩, hs⟩)
        (fun found s h => ⟨h.1.2, h.2⟩) fun _ _ h => h) fun found => ?_
  · refine .assume fun hI => ?_
    have hle := hI.1 offset List.mem_cons_self
    have hrest : ∀ o ∈ rest, o + 244 ≤ entries.length :=
      fun o ho => hI.1 o (List.mem_cons_of_mem _ ho)
    have hentry : (slice entries offset (offset + 244)).length = 244 := by
      rw [length_slice hle]
      omega
    refine .bind (ofExcept_knows (recordPosition_checked (by omega))) fun position =>
      .assume fun _ => ?_
    cases position with
    | none => exact .pure fun s hs => ⟨⟨hrest, hI.2⟩, hs⟩
    | some position =>
      have hpayload : Act.Holds (Knows r known) (readWithin r p position 8)
          (fun data s => data.length = 8 ∧ Knows r known s) (Refuses r) :=
        readWithin_knows hp position 8 (by omega)
      refine .bind hpayload fun payload => .assume fun _ =>
        .bind (ofExcept_knows recordAddress_checked) fun a => .assume fun ha => ?_
      refine .pure fun s hs => ⟨⟨hrest, fun b hb => ?_⟩, hs⟩
      rcases List.mem_append.mp hb with hb | hb
      · exact hI.2 b hb
      · rw [List.mem_singleton.mp hb]
        exact recordAddress_valid ha
  · intro o ho
    have hunits := hv.entries
    obtain ⟨i, hi, rfl⟩ := List.mem_map.mp ho
    have := List.mem_range.mp hi
    omega
  · refine .assume fun hfound => ?_
    split
    case h_1 a => exact .pure fun s hs => ⟨hfound a List.mem_cons_self, hs⟩
    case h_2 => exact .raise fun s hs => ⟨rfl, hs.1⟩

/-! ## The whole reading -/

theorem readFactory_holds :
    Act.Holds (Confined r) (readFactory r) (fun a s => ValidAddress a ∧ Confined r s) (Refuses r) := by
  refine .bind (probeSectors_located (by simp)) fun p => .exists_pre fun h => .exists_pre fun t =>
    .assume fun hprobe => .assume fun htable => .assume fun hdpp => .assume fun hbackup => ?_
  have may : ∀ {e}, h.HasPartition t e → MayRead [t, h] e := fun he offset size hle =>
    .partition h (by simp) hprobe t (by simp) htable _ he
      ⟨Nat.le_add_right _ _, by simp only; omega⟩
  refine .bind (readRecord_knows (may hdpp)) fun a => .assume fun ha => ?_
  refine .bind (readRecord_knows (may hbackup)) fun b => .assume fun _ => ?_
  exact .ite (fun _ => .raise fun s hs => ⟨rfl, hs.1⟩) fun _ => .pure fun s hs => ⟨ha, hs.1⟩

/-- **Reading factory storage is confined and total.** For every device, the reading ends with a
valid address or a `ValueError`; all it asks for is permitted and lies on the device, and is no
more than two MiB. -/
theorem readFactory_confined (r : Reader) :
    (match (readFactory r .start).1 with
      | .ok a => ValidAddress a
      | .error e => e.isValueError = true) ∧
    (∀ q ∈ (readFactory r .start).2.requests, 0 < q.size ∧ q.offset + q.size ≤ r.size ∧
      Permitted (readFactory r .start).2.requests q) ∧
    ((readFactory r .start).2.requests.map Request.size).sum ≤ 2 * 1024 ^ 2 := by
  have h := readFactory_holds (r := r) Session.start confined_start
  have hconfined : Confined r (readFactory r .start).2 := by
    rcases hr : readFactory r .start with ⟨e | a, s⟩ <;> simp only [hr] at h
    · exact h.2
    · exact h.2
  refine ⟨?_, fun q hq => ?_, ?_⟩
  · rcases hr : readFactory r .start with ⟨e | a, s⟩ <;> simp only [hr] at h
    · exact h.1
    · exact h.1
  · exact ⟨(hconfined.inside q hq).1, (hconfined.inside q hq).2, hconfined.permitted q hq⟩
  · have := hconfined.budget
    omega

end Azurefin
