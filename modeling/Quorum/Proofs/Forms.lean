import Quorum.Config.Document
import Quorum.Message.Document
import Quorum.Proofs.Documents

/-!
Messages and configurations, taken back from their documents.

A record gives each of its fields by name (`Json.fields?_record`), so what was written as a record
is read field by field. A timing that was left out is read as its default, which is what it was
(`Timing.spanOr_kept`). So every message whose numbers fit a word is read as it was written, and so
is a configuration, if it passes its check (`documents_lossless`).
-/

namespace Quorum

/-! ### Records and lists -/

namespace Json

variable {fs : Table String Json} {n : ℕ}

lemma lookup_record (name : String) (fs : Table String Json) :
    lookup name (fs.map fun f => (some f.1, f.2)) = Table.find? name fs := by
  induction fs with
  | nil => rfl
  | cons f fs ih =>
    by_cases h : f.1 = name
    · simp [lookup, Table.find?, h]
    · simpa [lookup, Table.find?, h] using ih

lemma keysFit_record (hfs : (fs.map Prod.fst).Nodup) (names : List String) :
    keysFit names (fs.map fun f => (some f.1, f.2)) = true := by
  have hcount : ∀ name, (fs.map fun f => (some f.1, f.2)).countP (fun m => m.1 == some name) =
      (fs.map Prod.fst).count name := fun name => by
    simp [List.countP_map, List.count, Function.comp_def]
  simp only [keysFit, hcount, Bool.and_eq_true, List.all_eq_true, decide_eq_true_eq]
  refine ⟨fun m hm => ?_, fun name _ => List.nodup_iff_count_le_one.mp hfs name⟩
  obtain ⟨f, -, rfl⟩ := List.mem_map.mp hm
  rfl

lemma fields?_record (hfs : (fs.map Prod.fst).Nodup) (names : List String) :
    (record fs).fields? names = some (names.map fun name => Table.find? name fs) := by
  rw [record, fields?, if_pos (keysFit_record hfs names)]
  simp only [lookup_record]

/-- A record with all its fields gives all of them. -/
lemma fields?_whole {names : List String} (hnames : fs.map Prod.fst = names)
    (hfs : names.Nodup) : (record fs).fields? names = some (fs.map fun f => some f.2) := by
  subst hnames
  rw [fields?_record hfs, List.map_map]
  exact congrArg some (List.map_congr_left fun f hf => Table.find?_of_mem hfs hf)

lemma word?_nat (h : n < wordLimit) : word? (.nat n) = some n := if_pos h

lemma byte?_nat (b : UInt8) : byte? (.nat b.toNat) = some b := by
  rw [byte?, if_pos b.toNat_lt, UInt8.ofNat_toNat]

lemma mapM_map {α β γ : Type} {f : β → Option γ} {g : α → β} {k : α → γ} {xs : List α}
    (h : ∀ x ∈ xs, f (g x) = some (k x)) : (xs.map g).mapM f = some (xs.map k) := by
  induction xs with
  | nil => rfl
  | cons x xs ih =>
    have hrest := ih fun y hy => h y (List.mem_cons_of_mem _ hy)
    simp [h x List.mem_cons_self, hrest]

lemma list?_list {α : Type} {f : Json → Option α} {g : α → Json} {xs : List α}
    (h : ∀ x ∈ xs, f (g x) = some x) : (list g xs).list? f = some xs :=
  (mapM_map h).trans (congrArg some xs.map_id)

lemma plain_record (h : ∀ f ∈ fs, Plain f.2) : Plain (record fs) := by
  refine .object fun m hm => ?_
  obtain ⟨f, hf, rfl⟩ := List.mem_map.mp hm
  exact h f hf

lemma plain_list {α : Type} {g : α → Json} {xs : List α} (h : ∀ x ∈ xs, Plain (g x)) :
    Plain (list g xs) := by
  refine .array fun j hj => ?_
  obtain ⟨x, hx, rfl⟩ := List.mem_map.mp hj
  exact h x hx

end Json

open Json

/-! ### Messages -/

namespace Entry

/-- The entry's numbers fit a word. -/
def InWords (e : Entry) : Prop := e.term < wordLimit ∧ e.index < wordLimit

lemma plain_toJson (e : Entry) : e.toJson.Plain := by
  refine plain_record ?_
  simp [Plain.nat, plain_list]

lemma ofJson?_toJson {e : Entry} (h : e.InWords) : ofJson? e.toJson = some e := by
  have hpayload : (Json.list (fun b => .nat b.toNat) e.payload).list? byte? = some e.payload :=
    list?_list fun b _ => byte?_nat b
  rw [ofJson?, toJson, fields?_whole]
  · simp [word?_nat h.1, word?_nat h.2, hpayload]
  · rfl
  · decide

end Entry

namespace VoteRequest

def InWords (r : VoteRequest) : Prop :=
  r.term < wordLimit ∧ r.candidate < wordLimit ∧ r.lastIndex < wordLimit ∧ r.lastTerm < wordLimit

lemma plain_toJson (r : VoteRequest) : r.toJson.Plain := by
  refine plain_record ?_
  simp [Plain.nat]

lemma ofJson?_toJson {r : VoteRequest} (h : r.InWords) : ofJson? r.toJson = some r := by
  obtain ⟨hterm, hcandidate, hindex, hlast⟩ := h
  rw [ofJson?, toJson, fields?_whole]
  · simp [word?_nat, *]
  · rfl
  · decide

end VoteRequest

namespace VoteReply

lemma plain_toJson (r : VoteReply) : r.toJson.Plain := by
  refine plain_record ?_
  simp [Plain.nat, Plain.bool]

lemma ofJson?_toJson {r : VoteReply} (h : r.term < wordLimit) : ofJson? r.toJson = some r := by
  rw [ofJson?, toJson, fields?_whole]
  · simp [word?_nat h, bool?]
  · rfl
  · decide

end VoteReply

namespace AppendRequest

def InWords (r : AppendRequest) : Prop :=
  r.leader < wordLimit ∧ r.term < wordLimit ∧ r.prevIndex < wordLimit ∧ r.prevTerm < wordLimit ∧
    (∀ e ∈ r.entries, e.InWords) ∧ r.commit < wordLimit

lemma plain_toJson (r : AppendRequest) : r.toJson.Plain := by
  refine plain_record ?_
  simp [Plain.nat, plain_list, Entry.plain_toJson]

lemma ofJson?_toJson {r : AppendRequest} (h : r.InWords) : ofJson? r.toJson = some r := by
  obtain ⟨hleader, hterm, hindex, hprev, hentries, hcommit⟩ := h
  have hlist : (Json.list Entry.toJson r.entries).list? Entry.ofJson? = some r.entries :=
    list?_list fun e he => Entry.ofJson?_toJson (hentries e he)
  rw [ofJson?, toJson, fields?_whole]
  · simp [word?_nat, *]
  · rfl
  · decide

end AppendRequest

namespace AppendReply

lemma plain_toJson (r : AppendReply) : r.toJson.Plain := by
  refine plain_record ?_
  simp [Plain.nat, Plain.bool]

lemma ofJson?_toJson {r : AppendReply} (h : r.term < wordLimit) : ofJson? r.toJson = some r := by
  rw [ofJson?, toJson, fields?_whole]
  · simp [word?_nat h, bool?]
  · rfl
  · decide

end AppendReply

namespace Message

/-- The message's numbers fit a word. -/
def InWords : Message → Prop
  | voteRequest r => r.InWords
  | voteReply r => r.term < wordLimit
  | appendRequest r => r.InWords
  | appendReply r => r.term < wordLimit

variable {m : Message}

lemma plain_toJson (m : Message) : m.toJson.Plain := by
  have hbody : m.body.Plain := by
    cases m with
    | voteRequest r => exact r.plain_toJson
    | voteReply r => exact r.plain_toJson
    | appendRequest r => exact r.plain_toJson
    | appendReply r => exact r.plain_toJson
  refine plain_record fun f hf => ?_
  rw [List.mem_singleton.mp hf]
  exact hbody

lemma ofJson?_toJson (h : m.InWords) : ofJson? m.toJson = some m := by
  have hvariant : m.toJson.variant? = some (m.kind, m.body) := rfl
  rw [ofJson?, hvariant]
  cases m with
  | voteRequest r => exact congrArg (Option.map voteRequest) (VoteRequest.ofJson?_toJson h)
  | voteReply r => exact congrArg (Option.map voteReply) (VoteReply.ofJson?_toJson h)
  | appendRequest r => exact congrArg (Option.map appendRequest) (AppendRequest.ofJson?_toJson h)
  | appendReply r => exact congrArg (Option.map appendReply) (AppendReply.ofJson?_toJson h)

end Message

/-! ### Configurations -/

namespace Timing

/-- The spans by name. -/
def fields (t : Timing) : Table String ℕ := fieldNames.zip t.spans

/-- Some fields as a document. -/
def kept (fs : Table String ℕ) : Json := .record (fs.map fun f => (f.1, .nat f.2))

lemma toJson_eq (t : Timing) : t.toJson = kept t.fields := by
  rw [toJson, kept, fields, List.zip_map_right]
  rfl

lemma find?_map {fs : Table String ℕ} (n : String) :
    Table.find? n (fs.map fun f => (f.1, Json.nat f.2)) = (Table.find? n fs).map .nat := by
  induction fs with
  | nil => rfl
  | cons f fs ih =>
    rw [List.map_cons, Table.find?, Table.find?, ih]
    split <;> rfl

/-- Each field's name with its span and its default. -/
def rows (t : Timing) : List (String × ℕ × ℕ) := fieldNames.zip (t.spans.zip ({} : Timing).spans)

lemma fields_eq (t : Timing) : t.fields = t.rows.map fun x => (x.1, x.2.1) := rfl

lemma fields_default (t : Timing) : ({} : Timing).fields = t.rows.map fun x => (x.1, x.2.2) := rfl

lemma nodup_fields (t : Timing) : (t.fields.map Prod.fst).Nodup :=
  show fieldNames.Nodup by decide

variable {t : Timing} {fs : Table String ℕ}

/-- What is not given is read as its default, and so it is read as it was. -/
lemma spanOr_kept (hsub : fs.Sublist t.fields)
    (hrest : ∀ f ∈ t.fields, f ∈ fs ∨ f ∈ ({} : Timing).fields)
    (hfit : ∀ s ∈ t.spans, s < wordLimit) {x : String × ℕ × ℕ} (hx : x ∈ t.rows) :
    spanOr ((Table.find? x.1 fs).map Json.nat) x.2.2 = some x.2.1 := by
  have hspan : (x.1, x.2.1) ∈ t.fields := by
    rw [fields_eq]
    exact List.mem_map_of_mem hx
  have hdefault : (x.1, x.2.2) ∈ ({} : Timing).fields := by
    rw [fields_default t]
    exact List.mem_map_of_mem hx
  rcases hfind : Table.find? x.1 fs with _ | s
  · have hmem : (x.1, x.2.1) ∈ ({} : Timing).fields := (hrest _ hspan).resolve_left fun hkept => by
      rw [Table.find?_of_mem (t.nodup_fields.sublist (hsub.map _)) hkept] at hfind
      cases hfind
    exact (Table.find?_of_mem (nodup_fields _) hdefault).symm.trans
      (Table.find?_of_mem (nodup_fields _) hmem)
  · have hs := Table.find?_of_mem t.nodup_fields (hsub.subset (Table.mem_of_find? hfind))
    rw [Table.find?_of_mem t.nodup_fields hspan] at hs
    cases hs
    exact word?_nat (hfit _ (List.of_mem_zip hspan).2)

/-- A timing is read from those of its fields that are kept, if the others are at their defaults. -/
lemma ofJson?_kept (hsub : fs.Sublist t.fields)
    (hrest : ∀ f ∈ t.fields, f ∈ fs ∨ f ∈ ({} : Timing).fields)
    (hfit : ∀ s ∈ t.spans, s < wordLimit) : ofJson? (kept fs) = some t := by
  have hkeys : ((fs.map fun f => (f.1, Json.nat f.2)).map Prod.fst).Nodup := by
    rw [List.map_map]
    exact t.nodup_fields.sublist (hsub.map Prod.fst)
  have hgiven : ((fieldNames.map fun n => (Table.find? n fs).map Json.nat).zip
      ({} : Timing).spans) = t.rows.map fun x => ((Table.find? x.1 fs).map Json.nat, x.2.2) := rfl
  have hspans : (t.rows.map fun x => ((Table.find? x.1 fs).map Json.nat, x.2.2)).mapM
      (fun p => spanOr p.1 p.2) = some (t.rows.map fun x => x.2.1) :=
    mapM_map fun x hx => spanOr_kept hsub hrest hfit hx
  rw [ofJson?, kept, fields?_record hkeys]
  simp only [find?_map, Option.bind_eq_bind, Option.bind_some]
  rw [hgiven, hspans]
  exact ofSpans?_spans t

lemma plain_kept (fs : Table String ℕ) : (kept fs).Plain := by
  refine plain_record fun f hf => ?_
  obtain ⟨g, -, rfl⟩ := List.mem_map.mp hf
  exact .nat g.2

end Timing

namespace Config

/-- The configuration's numbers fit a word. -/
def InWords (c : Config) : Prop :=
  c.self < wordLimit ∧ (∀ id ∈ c.members, id < wordLimit) ∧ ∀ s ∈ c.timing.spans, s < wordLimit

/-- A document of a configuration. Timings at their defaults may be missing. -/
inductive Form (c : Config) : Json → Prop
  | bare : c.timing = {} →
      Form c (.record [("node_id", .nat c.self), ("members", .list .nat c.members)])
  | kept (fs : Table String ℕ) : fs.Sublist c.timing.fields →
      (∀ f ∈ c.timing.fields, f ∈ fs ∨ f ∈ ({} : Timing).fields) →
      Form c (.record [("node_id", .nat c.self), ("members", .list .nat c.members),
        ("raft", Timing.kept fs)])

variable {c : Config} {j : Json}

lemma form_toJson (c : Config) : c.Form c.toJson := by
  rw [toJson, Timing.toJson_eq]
  exact .kept _ (List.Sublist.refl _) fun f hf => Or.inl hf

lemma Form.plain (h : c.Form j) : j.Plain := by
  cases h with
  | bare =>
    refine plain_record ?_
    simp [Plain.nat, plain_list]
  | kept =>
    refine plain_record ?_
    simp [Plain.nat, plain_list, Timing.plain_kept]

lemma Form.ofJson? (h : c.Form j) (hc : c.InWords) : ofJson? j = some c := by
  obtain ⟨hself, hmembers, hspans⟩ := hc
  have hlist : (Json.list .nat c.members).list? word? = some c.members :=
    list?_list fun id hid => word?_nat (hmembers id hid)
  cases h with
  | bare htiming =>
    rw [Config.ofJson?, fields?_record (by simp)]
    simp [fieldNames, Table.find?, word?_nat hself, hlist, ← htiming]
  | kept _ hsub hrest =>
    rw [Config.ofJson?, fields?_whole]
    · simp [word?_nat hself, hlist, Timing.ofJson?_kept hsub hrest hspans]
    · rfl
    · decide

lemma Form.parse (h : c.Form j) (hc : c.InWords) {text : String}
    (htext : text ∈ [j.compact, j.pretty]) : Config.parse text = c.check.map fun _ => c := by
  have hread : Json.parse? text >>= Config.ofJson? = some c := by
    rw [parse?_of_mem h.plain htext]
    exact h.ofJson? hc
  rw [Config.parse, hread]
  dsimp only
  cases c.check <;> rfl

end Config

/-- **Nothing is lost in a document.** A message whose numbers fit a word is read back from either
of its texts as it was. So is a configuration that passes its check, and for any other the complaint
is that of the check; also if timings that are at their defaults are missing in the document. -/
theorem documents_lossless :
    (∀ m : Message, m.InWords → ∀ text ∈ [m.toJson.compact, m.toJson.pretty],
        Json.parse? text >>= Message.ofJson? = some m) ∧
      ∀ c : Config, c.InWords → c.Form c.toJson ∧
        ∀ j, c.Form j → ∀ text ∈ [j.compact, j.pretty],
          Config.parse text = c.check.map fun _ => c := by
  refine ⟨fun m hm text htext => ?_, fun c hc => ⟨c.form_toJson, fun j hj text => hj.parse hc⟩⟩
  rw [parse?_of_mem m.plain_toJson htext]
  exact Message.ofJson?_toJson hm

/-- A request with the largest numbers, and an entry with all kinds of bytes. -/
def largest : Message :=
  .appendRequest ⟨2 ^ 64 - 1, 2 ^ 64 - 1, 2 ^ 64 - 1, 0, [⟨2 ^ 64 - 1, 0, [0, 34, 92, 255]⟩],
    2 ^ 64 - 1⟩

/-- A configuration with two timings of its own. -/
def patient : Config := ⟨2, [1, 2 ^ 64 - 1, 2], { electionMin := 5, commitWait := 2 ^ 64 - 1 }⟩

theorem documents_lossless_largest :
    Json.parse? largest.toJson.compact >>= Message.ofJson? = some largest ∧
      Config.parse (Json.record [("node_id", .nat 2), ("members", .list .nat [1, 2 ^ 64 - 1, 2]),
        ("raft", .record [("election_timeout_min", .nat 5),
          ("commit_timeout", .nat (2 ^ 64 - 1))])]).compact = .ok patient ∧
      Config.parse (Json.record [("node_id", .nat 1),
        ("members", .list .nat [1, 1])]).pretty = .error (.duplicateMember 1) := by
  obtain ⟨hmessage, hconfig⟩ := documents_lossless
  have hlargest : largest.InWords := by
    refine ⟨by decide, by decide, by decide, by decide, fun e he => ?_, by decide⟩
    rw [List.mem_singleton.mp he]
    exact ⟨by decide, by decide⟩
  have hpatient : patient.InWords := ⟨by decide, by decide, by decide⟩
  have htwice : Config.InWords ⟨1, [1, 1], {}⟩ := ⟨by decide, by decide, by decide⟩
  have hkept : patient.Form (.record [("node_id", .nat 2),
      ("members", .list .nat [1, 2 ^ 64 - 1, 2]), ("raft", .record
        [("election_timeout_min", .nat 5), ("commit_timeout", .nat (2 ^ 64 - 1))])]) :=
    .kept [("election_timeout_min", 5), ("commit_timeout", 2 ^ 64 - 1)] (by decide) (by decide)
  refine ⟨hmessage largest hlargest _ List.mem_cons_self, ?_, ?_⟩
  · exact (hconfig patient hpatient).2 _ hkept _ List.mem_cons_self
  · exact (hconfig _ htwice).2 _ (.bare rfl) _ (List.mem_cons_of_mem _ List.mem_cons_self)

end Quorum
