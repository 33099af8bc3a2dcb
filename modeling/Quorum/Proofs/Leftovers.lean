import Quorum.Proofs.FileLogs

/-!
What becomes of bytes that a failed append leaves behind.

An append that fails and cannot be rolled back leaves the bytes it wrote behind the records of the
file. They are not read as long as the log is open, and the next append writes over them. But it
writes over as many of them as its own record has, and what is left then is behind that record: when
the file is opened anew, it is read on there. So no acknowledged record is ever lost, and what
follows the last of them is whatever records the bytes left behind spell
(`LogFile.acknowledged_survive`). As long as every write is at least as long as what was left behind
before it, that is at most the record that failed last. Otherwise it may be any record, since
payloads are any bytes: an entry that ends in the bytes of another makes a record of that one.
-/

namespace Quorum

open Quorum.Frame

/-- The bytes behind the records that an open log knows of. -/
def LogFile.leftover (l : LogFile) : Bytes :=
  match l.tree.read l.path with
  | .ok bytes => bytes.drop l.wal.size
  | .error _ => []

/-- What is asked of a log whose failed appends may leave bytes behind. -/
inductive Attempt
  | append (e : Entry)
  /-- An append that fails after so many bytes were written, if it comes to writing at all. They are
  cut off again, or that fails as well. -/
  | fail (e : Entry) (written : ℕ) (undone : Bool)
  | truncate (k : Index)

namespace Attempt

/-- The numbers of the entry, if there is one, fit their fields. The payload may be too long. -/
def Sized : Attempt → Prop
  | append e | fail e .. => e.term < wordLimit ∧ e.index < wordLimit
  | truncate _ => True

end Attempt

/-- A log with what its user knows of it. -/
structure Account where
  file : LogFile
  /-- The records in force: those that were there, or were appended, and were not cut off since. -/
  acked : List Entry
  /-- The last entry whose append failed in writing. -/
  failed : Option Entry := none

namespace Account

/-- The account of a log that was just opened. -/
def opened (file : LogFile) : Account where
  file := file
  acked := match (LogStore.readAll file).1 with
    | .ok es => es
    | .error _ => []

/-- The account after an attempt, going by the answer. -/
def step (a : Account) : Attempt → Account
  | .append e =>
    match LogStore.append e a.file with
    | (.ok _, file) => { a with file, acked := a.acked ++ [e] }
    | (.error _, file) => { a with file }
  | .fail e written undone =>
    match if undone then a.file.failAppend written e else a.file.strandAppend written e with
    | (.error (.io _), file) => { a with file, failed := some e }
    | (_, file) => { a with file }
  | .truncate k =>
    match LogStore.truncate k a.file with
    | (.ok (), file) => { a with file, acked := a.acked.take k }
    | (.error _, file) => { a with file }

def run (a : Account) (ts : List Attempt) : Account := ts.foldl step a

/-- As many bytes are written as were left behind, or those are cut off. -/
def Covers (a : Account) : Attempt → Prop
  | .append e => a.file.leftover.length ≤ (encode e).length
  | .fail e written undone =>
    undone = true ∨ a.file.leftover.length ≤ ((encode e).take written).length
  | .truncate _ => True

/-- Every attempt of a run covers what was left behind before it. -/
def Tidy : Account → List Attempt → Prop
  | _, [] => True
  | a, t :: ts => a.Covers t ∧ Tidy (a.step t) ts

/-- What is left behind is at most the beginning of the record that failed last. -/
def Clean (a : Account) : Prop :=
  a.file.leftover = [] ∨ ∃ e n, a.failed = some e ∧ e.Fits ∧ e.index = a.acked.length + 1 ∧
    a.file.leftover = (encode e).take n

end Account

/-! ### One attempt -/

lemma Wal.admits_cases (e : Entry) (w : Wal) :
    (e.payload.length ≤ maxPayload ∧ e.index = w.lastIndex + 1) ∨
      ∃ err, w.admits e = .error err ∧ ∀ x, err ≠ .io x := by
  unfold Wal.admits
  split
  · exact .inr ⟨_, rfl, by simp⟩
  · rename_i hpayload
    split
    · exact .inr ⟨_, rfl, by simp⟩
    · rename_i hindex
      exact .inl ⟨Nat.le_of_not_lt hpayload, not_not.mp hindex⟩

namespace LogFile.Trails

variable {l : LogFile} {path : Files.Path} {es : List Entry} {rest : Bytes}

lemma leftover (h : l.Trails path es rest) : l.leftover = rest := by
  have hsize : l.wal.size = (encodeAll es).length := congrArg Wal.size h.wal_eq
  rw [LogFile.leftover, h.path_eq, h.read]
  dsimp only
  rw [hsize, List.drop_left]

/-- An append is refused before anything is written, or its entry is the next one and fits. -/
lemma fits_or_refused (h : l.Trails path es rest) {e : Entry}
    (he : e.term < wordLimit ∧ e.index < wordLimit) :
    (e.Fits ∧ e.index = es.length + 1) ∨ ∃ err, l.wal.admits e = .error err ∧ ∀ x, err ≠ .io x := by
  have hlast : l.wal.lastIndex = es.length := by
    rw [h.wal_eq]
    exact Memory.lastOf_fst h.numbered
  rcases Wal.admits_cases e l.wal with ⟨hpayload, hindex⟩ | hrefused
  · exact .inl ⟨⟨he.1, he.2, hpayload⟩, by rw [hindex, hlast]⟩
  · exact .inr hrefused

end LogFile.Trails

namespace Account

variable {a : Account} {t : Attempt} {path : Files.Path} {rest : Bytes}

/-- All that an attempt can do. -/
lemma step_cases (h : a.file.Trails path a.acked rest) (ht : t.Sized) :
    a.step t = a ∨
      (∃ e file, t = .append e ∧ a.step t = { a with file, acked := a.acked ++ [e] } ∧
        file.Trails path (a.acked ++ [e]) (rest.drop (encode e).length)) ∨
      (∃ e written file, t = .fail e written true ∧ a.step t = { a with file, failed := some e } ∧
        file.Trails path a.acked []) ∨
      (∃ e written file, t = .fail e written false ∧
        a.step t = { a with file, failed := some e } ∧ e.Fits ∧ e.index = a.acked.length + 1 ∧
        file.Trails path a.acked
          ((encode e).take written ++ rest.drop ((encode e).take written).length)) ∨
      ∃ k file, t = .truncate k ∧ a.step t = { a with file, acked := a.acked.take k } ∧
        file.Trails path (a.acked.take k) (if a.acked.length ≤ k then rest else []) := by
  cases t with
  | append e =>
    rcases h.fits_or_refused ht with ⟨hfit, hi⟩ | ⟨err, hrefused, -⟩
    · obtain ⟨file, happ, htrails⟩ := h.append hfit hi
      exact .inr (.inl ⟨e, file, rfl, by simp only [step, happ], htrails⟩)
    · left
      simp only [step, LogStore.append, Wal.appendTo, hrefused]
  | fail e written undone =>
    rcases h.fits_or_refused ht with ⟨hfit, hi⟩ | ⟨err, hrefused, hio⟩
    · cases undone with
      | true =>
        obtain ⟨file, hfail, htrails⟩ := h.failAppend hfit hi written
        refine .inr (.inr (.inl ⟨e, written, file, rfl, ?_, htrails⟩))
        simp only [step, if_true, hfail]
      | false =>
        obtain ⟨file, hfail, htrails⟩ := h.strandAppend hfit hi written
        refine .inr (.inr (.inr (.inl ⟨e, written, file, rfl, ?_, hfit, hi, htrails⟩)))
        simp only [step, Bool.false_eq_true, if_false, hfail]
    · left
      simp only [step, LogFile.failAppend, LogFile.strandAppend, hrefused, ite_self]
      cases err with
      | io x => exact absurd rfl (hio x)
      | _ => rfl
  | truncate k =>
    obtain ⟨file, htr, htrails⟩ := h.truncate k
    exact .inr (.inr (.inr (.inr ⟨k, file, rfl, by simp only [step, htr], htrails⟩)))

/-- The file goes on holding the records in force, whatever is behind them. -/
lemma step_trails (h : a.file.Trails path a.acked rest) (ht : t.Sized) :
    ∃ rest', (a.step t).file.Trails path (a.step t).acked rest' := by
  rcases step_cases h ht with heq | ⟨e, file, -, heq, htrails⟩ |
    ⟨e, written, file, -, heq, htrails⟩ | ⟨e, written, file, -, heq, -, -, htrails⟩ |
    ⟨k, file, -, heq, htrails⟩ <;> rw [heq]
  · exact ⟨_, h⟩
  all_goals exact ⟨_, htrails⟩

/-- An attempt that covers what was left behind leaves no mixture of two records. -/
lemma step_clean (h : a.file.Trails path a.acked rest) (ht : t.Sized) (hcovers : a.Covers t)
    (hclean : a.Clean) : (a.step t).Clean := by
  rcases step_cases h ht with heq | ⟨e, file, rfl, heq, htrails⟩ |
    ⟨e, written, file, rfl, heq, htrails⟩ | ⟨e, written, file, rfl, heq, hfit, hi, htrails⟩ |
    ⟨k, file, rfl, heq, htrails⟩ <;> rw [heq]
  · exact hclean
  · left
    rw [htrails.leftover]
    exact List.drop_of_length_le (by simpa only [Covers, h.leftover] using hcovers)
  · exact .inl htrails.leftover
  · have hlen : rest.length ≤ ((encode e).take written).length := by
      simpa only [Covers, h.leftover, Bool.false_eq_true, false_or] using hcovers
    refine .inr ⟨e, written, rfl, hfit, hi, ?_⟩
    rw [htrails.leftover, List.drop_of_length_le hlen, List.append_nil]
  · by_cases hk : a.acked.length ≤ k
    · rw [if_pos hk] at htrails
      simpa only [Clean, htrails.leftover, h.leftover, List.take_of_length_le hk] using hclean
    · rw [if_neg hk] at htrails
      exact .inl htrails.leftover

/-! ### Runs -/

lemma run_trails {ts : List Attempt} (hts : ∀ t ∈ ts, t.Sized)
    (h : a.file.Trails path a.acked rest) :
    ∃ rest', (a.run ts).file.Trails path (a.run ts).acked rest' := by
  induction ts generalizing a rest with
  | nil => exact ⟨rest, h⟩
  | cons t ts ih =>
    obtain ⟨rest', h'⟩ := step_trails h (hts t (by simp))
    exact ih (fun t' ht' => hts t' (by simp [ht'])) h'

lemma run_clean {ts : List Attempt} (hts : ∀ t ∈ ts, t.Sized)
    (h : a.file.Trails path a.acked rest) (htidy : a.Tidy ts) (hclean : a.Clean) :
    (a.run ts).Clean := by
  induction ts generalizing a rest with
  | nil => exact hclean
  | cons t ts ih =>
    have ht := hts t (by simp)
    obtain ⟨rest', h'⟩ := step_trails h ht
    exact ih (fun t' ht' => hts t' (by simp [ht'])) h' htidy.2 (step_clean h ht htidy.1 hclean)

/-- The beginning of the record that failed last spells this record or none. -/
lemma Clean.extra (hclean : a.Clean) {extra : List Entry} {tail : Bytes}
    (hleft : a.file.leftover = encodeAll extra ++ tail)
    (hn : Numbered (a.acked ++ extra)) (hfit : ∀ e ∈ a.acked ++ extra, e.Fits)
    (hends : Ends ((a.acked ++ extra).length + 1) tail) :
    extra = [] ∨ ∃ e, a.failed = some e ∧ extra = [e] := by
  rcases hclean with hnil | ⟨e, n, hfailed, he, hi, htake⟩
  · have hempty : Ends (a.acked.length + 1) (encodeAll extra ++ tail) := by
      rw [← hleft, hnil]
      exact ends_nil _
    exact .inl (eq_nil_of_ends hn hfit hempty)
  · rcases Nat.lt_or_ge n (encode e).length with hpart | hwhole
    · have htorn : Ends (a.acked.length + 1) (encodeAll extra ++ tail) := by
        rw [← hleft, htake]
        exact ends_take_encode he hpart _
      exact .inl (eq_nil_of_ends hn hfit htorn)
    · right
      rw [htake, List.take_of_length_le hwhole, ← List.append_nil (encode e)] at hleft
      obtain ⟨more, rfl, hrest⟩ := exists_cons_of_encode hn hfit hends he hi hleft
      rw [List.append_cons] at hn hfit
      have hempty : Ends ((a.acked ++ [e]).length + 1) (encodeAll more ++ tail) := by
        rw [← hrest]
        exact ends_nil _
      obtain rfl : more = [] := eq_nil_of_ends hn hfit hempty
      exact ⟨e, hfailed, rfl⟩

/-- If an entry fails that ends in the bytes of a record, and a shorter one is written in its place
then, the log is opened with that record behind the shorter one. -/
lemma exists_spelled (h : a.file.Trails path a.acked rest) {f g : Entry} (hf : f.Fits)
    (hg : g.Fits) (hfi : f.index = a.acked.length + 1) (hgi : g.index = f.index + 1)
    (hroom : f.payload.length + (encode g).length ≤ maxPayload) :
    ∃ e written file more, e.Fits ∧ e.index = f.index ∧
      (a.run [.fail e written false, .append f]).acked = a.acked ++ [f] ∧
      Reopen.reopen (a.run [.fail e written false, .append f]).file = (.ok (), file) ∧
      LogStore.readAll file = (.ok (a.acked ++ f :: g :: more), file) := by
  let e : Entry := ⟨f.term, f.index, f.payload ++ encode g⟩
  have he : e.Fits := ⟨hf.term, hf.index, by simpa [e] using hroom⟩
  obtain ⟨failed, hfail, htrails⟩ := h.strandAppend he hfi (encode e).length
  rw [List.take_length] at htrails
  obtain ⟨longer, happ, htrails'⟩ := htrails.append hf hfi
  have hless : (encode f).length ≤ (encode e).length := by simp [e, length_encode]
  rw [List.drop_append_of_le_length hless, drop_encode] at htrails'
  have hrun : a.run [.fail e (encode e).length false, .append f] =
      ⟨longer, a.acked ++ [f], some e⟩ := by
    simp only [run, List.foldl, step, Bool.false_eq_true, if_false, hfail, happ]
  obtain ⟨extra, tail, file, hbytes, hends, hopen, hkeeps⟩ := htrails'.reopen
  have hgi' : g.index = (a.acked ++ [f]).length + 1 := by simp [hgi, hfi]
  obtain ⟨more, rfl, -⟩ := exists_cons_of_encode hkeeps.numbered hkeeps.fits hends hg hgi' hbytes
  refine ⟨e, (encode e).length, file, more, he, rfl, ?_, ?_, ?_⟩
  · rw [hrun]
  · rw [hrun, hopen]
  · rw [hkeeps.readAll, List.append_assoc, List.singleton_append]

end Account

namespace LogFile

variable {path : Files.Path}

lemma opened_trails {tree tree' : Files.Tree} {wal : Wal}
    (hopen : Wal.openFile path tree = (.ok wal, tree')) :
    (Account.opened ⟨tree', path, wal⟩).file.Trails path
      (Account.opened ⟨tree', path, wal⟩).acked [] := by
  obtain ⟨es, hkeeps⟩ := exists_keeps_of_openFile hopen
  have hacked : (Account.opened ⟨tree', path, wal⟩).acked = es := by
    rw [Account.opened, hkeeps.readAll]
  rw [hacked]
  exact keeps_iff_trails.mp hkeeps

/-- **What is acknowledged survives; what is left behind may be read as anything.** After any run of
appends, failed appends and truncations of a log that could be opened, whether or not what a failed
one wrote was cut off again, the log reads as the records in force, and opening it anew gives these
and then the records that the bytes behind them spell. If every attempt covers what was left behind
before it, there are none, or one, the entry whose append failed last. But whatever the run was, an
append can fail then and a shorter one of the same index be acknowledged, so that behind it a record
is read that nobody asked to append: any one of the next index that fits a payload. -/
theorem acknowledged_survive {tree tree' : Files.Tree} {wal : Wal}
    (hopen : Wal.openFile path tree = (.ok wal, tree')) (ts : List Attempt)
    (hts : ∀ t ∈ ts, t.Sized) :
    let start := Account.opened ⟨tree', path, wal⟩
    let a := start.run ts
    LogStore.readAll a.file = (.ok a.acked, a.file) ∧
      (∃ extra tail file, a.file.leftover = encodeAll extra ++ tail ∧
        Ends ((a.acked ++ extra).length + 1) tail ∧
        Reopen.reopen a.file = (.ok (), file) ∧
        LogStore.readAll file = (.ok (a.acked ++ extra), file) ∧
        (start.Tidy ts → extra = [] ∨ ∃ e, a.failed = some e ∧ extra = [e])) ∧
      ∀ f g : Entry, f.Fits → g.Fits → f.index = a.acked.length + 1 → g.index = f.index + 1 →
        f.payload.length + (encode g).length ≤ maxPayload →
        ∃ e written file more, e.Fits ∧ e.index = f.index ∧
          (a.run [.fail e written false, .append f]).acked = a.acked ++ [f] ∧
          Reopen.reopen (a.run [.fail e written false, .append f]).file = (.ok (), file) ∧
          LogStore.readAll file = (.ok (a.acked ++ f :: g :: more), file) := by
  intro start a
  have hstart : start.file.Trails path start.acked [] := opened_trails hopen
  obtain ⟨rest, htrails⟩ : ∃ rest, a.file.Trails path a.acked rest := Account.run_trails hts hstart
  obtain ⟨extra, tail, file, hbytes, hends, hreopen, hkeeps⟩ := htrails.reopen
  have hleft : a.file.leftover = encodeAll extra ++ tail := htrails.leftover.trans hbytes
  refine ⟨htrails.readAll, ⟨extra, tail, file, hleft, hends, hreopen, hkeeps.readAll, ?_⟩,
    fun f g hf hg hfi hgi hroom => Account.exists_spelled htrails hf hg hfi hgi hroom⟩
  intro htidy
  have hclean : a.Clean := Account.run_clean hts hstart htidy (.inl hstart.leftover)
  exact hclean.extra hleft hkeeps.numbered hkeeps.fits hends

/-- A record is appended, and then all but one byte of the next is left behind. -/
def stranding : List Attempt := [.append ⟨1, 1, [7]⟩, .fail ⟨1, 2, [8, 9]⟩ 21 false]

lemma stranding_sized : ∀ t ∈ stranding, t.Sized := by
  have hsmall : ∀ n < 10, n < wordLimit := fun n hn => lt_trans hn (by decide)
  simp [stranding, Attempt.Sized, hsmall]

lemma stranding_acked : ((Account.opened first).run stranding).acked = [⟨1, 1, [7]⟩] := by
  have hnew : (Account.opened first).acked = [] := by
    rw [Account.opened, (keeps_of_openFile first_opened first_new).readAll]
  have hrun : ((Account.opened first).run stranding).acked =
      (Account.opened first).acked ++ [⟨1, 1, [7]⟩] := rfl
  rw [hrun, hnew, List.nil_append]

/-- Behind the two records that are acknowledged a third is read, which was in the payload of an
entry that failed. -/
theorem acknowledged_survive_stranding :
    Wal.openFile first.path [] = (.ok first.wal, first.tree) ∧ (∀ t ∈ stranding, t.Sized) ∧
      ∃ e written file more, e.index = 2 ∧
        Reopen.reopen (((Account.opened first).run stranding).run
          [.fail e written false, .append ⟨1, 2, [8]⟩]).file = (.ok (), file) ∧
        LogStore.readAll file =
          (.ok (⟨1, 1, [7]⟩ :: ⟨1, 2, [8]⟩ :: ⟨1, 3, [9]⟩ :: more), file) := by
  have hfit : ∀ i < 10, ∀ b, Entry.Fits ⟨1, i, [b]⟩ := fun i hi b =>
    ⟨lt_trans (by decide : 1 < 10) (by decide), lt_trans hi (by decide), by simp [maxPayload]⟩
  have hroom : [(8 : UInt8)].length + (encode ⟨1, 3, [9]⟩).length ≤ maxPayload := by
    rw [length_encode]
    decide
  have hfirst : (⟨first.tree, first.path, first.wal⟩ : LogFile) = first := rfl
  have hsurvive := acknowledged_survive first_opened stranding stranding_sized
  rw [hfirst] at hsurvive
  obtain ⟨-, -, hspelled⟩ := hsurvive
  rw [stranding_acked] at hspelled
  obtain ⟨e, written, file, more, -, hi, -, hopen, hread⟩ :=
    hspelled ⟨1, 2, [8]⟩ ⟨1, 3, [9]⟩ (hfit 2 (by decide) 8) (hfit 3 (by decide) 9) rfl rfl hroom
  exact ⟨first_opened, stranding_sized, e, written, file, more, hi, hopen, hread⟩

end LogFile

end Quorum
