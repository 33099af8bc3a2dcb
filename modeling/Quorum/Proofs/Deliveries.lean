import Mathlib.Data.Finset.Lattice.Fold
import Quorum.Proofs.Batches

/-!
Requests of one leader that come more than once and in any order.

Each of them holds what the leader's log has between two positions. One that is taken in makes the
follower's log begin as the leader's does, as far as the request reaches, and changes nothing if it
does so already (`adopt`). So a request that reaches less far never undoes what one that reaches
further has done, and what comes of many depends on which they are, and not on their order or
number.
-/

namespace Quorum

open LawfulStore

/-- The request holds what a log has from one position to another, and does not tell of more that
is committed. -/
structure AppendRequest.CutFrom (r : AppendRequest) (fs : List Entry) : Prop where
  reaches : r.lastIndex ≤ fs.length
  slice : r.batch.Slice (fs.take r.lastIndex)

namespace Log

variable {es es' fs : List Entry} {i j : ℕ}

lemma Agree.take (h : Agree es fs) (n : ℕ) : Agree es (fs.take n) := by
  intro i e f he hf hterm
  obtain ⟨hi, -⟩ := List.getElem?_eq_some_iff.mp hf
  have hin : i < n := by
    rw [List.length_take] at hi
    omega
  rw [List.getElem?_take_of_lt hin] at hf
  rw [h i e f he hf hterm, List.take_take, min_eq_left hin]

lemma agree_of_isPrefix (h : es <+: fs) : Agree es fs := by
  intro i e f he _ _
  obtain ⟨hi, -⟩ := List.getElem?_eq_some_iff.mp he
  exact (take_eq_of_isPrefix h hi).symm

lemma Spliced.agree {n : ℕ} (h : Spliced (fs.take n) es es') (hag : Agree es fs) :
    Agree es' fs := by
  rcases h.eq_or_isPrefix with rfl | hpre
  · exact hag
  · exact agree_of_isPrefix (hpre.trans (List.take_prefix n fs))

/-! ### Beginning as another log -/

/-- A log that begins with `fs` stays, and any other becomes `fs`. -/
def adopt (fs es : List Entry) : List Entry := if fs <+: es then es else fs

lemma adopt_of_isPrefix (h : es <+: fs) : adopt fs es = fs := by
  unfold adopt
  split
  · rename_i hpre
    exact h.eq_of_length (Nat.le_antisymm h.length_le hpre.length_le)
  · rfl

lemma isPrefix_adopt : fs <+: adopt fs es := by
  unfold adopt
  split
  · assumption
  · exact List.prefix_rfl

/-- Of two beginnings of a log the longer one decides. -/
lemma adopt_adopt : adopt (fs.take j) (adopt (fs.take i) es) = adopt (fs.take (max i j)) es := by
  rcases Nat.le_total j i with hji | hij
  · have hpre : fs.take j <+: fs.take i := List.take_prefix_take_left hji
    rw [max_eq_left hji, adopt, if_pos (hpre.trans isPrefix_adopt)]
  · have hpre : fs.take i <+: fs.take j := List.take_prefix_take_left hij
    rw [max_eq_right hij]
    by_cases hes : fs.take i <+: es
    · rw [adopt, adopt, if_pos hes, adopt]
    -- a log that does not begin as the shorter one does not begin as the longer one either
    · have hnot : ¬ fs.take j <+: es := fun h => hes (hpre.trans h)
      have hi : adopt (fs.take i) es = fs.take i := if_neg hes
      rw [hi, adopt_of_isPrefix hpre, adopt, if_neg hnot]

/-- Splicing that comes to begin with `fs` has adopted it. -/
lemma Spliced.eq_adopt (h : Spliced fs es es') (hpre : fs <+: es') : es' = adopt fs es := by
  unfold adopt
  rcases h with rfl | ⟨hnot, n, -, rfl, -⟩
  · rw [if_pos hpre]
  · rw [if_neg hnot]
    exact ((List.take_prefix n fs).eq_of_length
      (Nat.le_antisymm (List.take_prefix n fs).length_le hpre.length_le))

/-! ### What many requests come to -/

variable {μ σ : Type} {l l' l'' : Log (Journal μ)} {r : AppendRequest}
variable {rs rs' : List AppendRequest}

/-- What comes of requests that were all taken in. It depends only on how far they reach, and on how
much they tell to be committed. -/
structure Collects (fs : List Entry) (rs : List AppendRequest) (l l' : Log (Journal μ)) : Prop where
  entries : l'.entries = adopt (fs.take (rs.toFinset.sup (·.lastIndex))) l.entries
  commit : l'.commit = max l.commit (rs.toFinset.sup (·.commit))
  applied : l'.applied = if l.commit < l'.commit then l'.commit else l.applied

namespace Collects

lemma nil : Collects fs [] l l where
  entries := by simp [adopt]
  commit := by simp
  applied := by simp

lemma cons (h : Collects fs [r] l l') (h' : Collects fs rs l' l'') :
    Collects fs (r :: rs) l l'' := by
  have h1 := h.commit
  have h2 := h'.commit
  refine ⟨?_, ?_, ?_⟩
  · rw [h'.entries, h.entries, adopt_adopt]
    simp
  · rw [h2, h1]
    simp [max_assoc]
  · rw [h'.applied, h.applied]
    split_ifs <;> lia

end Collects

/-! ### Deliveries -/

variable [Machine μ] [LogStore σ] {store : σ}

/-- Takes in requests one after another, and gives the answers. -/
def followAll {μ : Type} [Machine μ] (current : Term) : List AppendRequest → Log μ → σ →
    List (Except Refusal Unit) × Log μ × σ
  | [], l, store => ([], l, store)
  | r :: rs, l, store =>
    match l.follow current r.batch store with
    | (answer, l, store) =>
      match followAll current rs l store with
      | (answers, l, store) => (answer :: answers, l, store)

/-- What a delivery leaves: the log still agrees with the leader's, and goes on to begin as it if it
did. A request that is taken in makes it do so. -/
lemma follow_delivery (hf : Numbered fs) (hag : Agree l.entries fs) (hr : r.CutFrom fs)
    (current : Term) (store : σ) :
    Agree (l.follow current r.batch store).2.1.entries fs ∧
      (∀ n, fs.take n <+: l.entries →
        fs.take n <+: (l.follow current r.batch store).2.1.entries) ∧
      ((l.follow current r.batch store).1 = .ok () →
        (l.follow current r.batch store).2.1.entries = adopt (fs.take r.lastIndex) l.entries ∧
          (l.follow current r.batch store).2.1.commit = max l.commit r.commit) := by
  obtain ⟨hsp, hout⟩ := follow_slice (hf.take _) (hag.take _) hr.slice current store
  refine ⟨hsp.agree hag, fun n hn => hsp.keeps hn ?_, fun hok => ?_⟩
  · rcases Nat.le_total n r.lastIndex with h | h
    · exact Or.inl (List.take_prefix_take_left h)
    · exact Or.inr (List.take_prefix_take_left h)
  · rcases hout with ⟨-, hpre, hcommit⟩ | ⟨⟨x, hx, -⟩, -⟩
    · exact ⟨hsp.eq_adopt hpre, hcommit⟩
    · cases hok.symm.trans hx

/-- What was taken in once stays, whatever of the same leader comes later. -/
lemma followAll_begins (hf : Numbered fs) (hag : Agree l.entries fs) (hrs : ∀ r ∈ rs, r.CutFrom fs)
    (current : Term) (store : σ) :
    (∀ n, fs.take n <+: l.entries → fs.take n <+: (l.followAll current rs store).2.1.entries) ∧
      ∀ (k : ℕ) (r : AppendRequest), rs[k]? = some r →
        (l.followAll current rs store).1[k]? = some (.ok ()) →
          fs.take r.lastIndex <+: (l.followAll current rs store).2.1.entries := by
  -- by induction on the requests: the logs agree before each of them, whatever became of the others
  induction rs generalizing l store with
  | nil => exact ⟨fun n hn => hn, fun k r hk => by simp at hk⟩
  | cons q rs ih =>
    obtain ⟨hagree, hkeep, hadopt⟩ :=
      follow_delivery hf hag (hrs q List.mem_cons_self) current store
    obtain ⟨hlater, htaken⟩ := ih hagree (fun r hr => hrs r (List.mem_cons_of_mem q hr))
      (l.follow current q.batch store).2.2
    refine ⟨fun n hn => hlater n (hkeep n hn), fun k r hk hans => ?_⟩
    cases k with
    | zero =>
      obtain rfl := Option.some.inj hk
      obtain ⟨hentries, -⟩ := hadopt (Option.some.inj hans)
      have hbegins : fs.take q.lastIndex <+: (l.follow current q.batch store).2.1.entries := by
        rw [hentries]
        exact isPrefix_adopt
      exact hlater _ hbegins
    | succ k => exact htaken k r hk hans

lemma follow_collects (hl : l.Steady) (hf : Numbered fs) (hag : Agree l.entries fs)
    (hr : r.CutFrom fs) {current : Term} (hok : (l.follow current r.batch store).1 = .ok ()) :
    Collects fs [r] l (l.follow current r.batch store).2.1 := by
  obtain ⟨-, -, hadopt⟩ := follow_delivery hf hag hr current store
  obtain ⟨hentries, hcommit⟩ := hadopt hok
  have hsteady := follow_steady hl current r.batch store
  have hb : NumberedFrom r.batch.prevIndex r.batch.entries := by
    rw [hr.slice.entries]
    exact (hf.take _).drop _
  obtain ⟨ks, -, hl'⟩ := exists_of_follow_ok hb hok
  refine ⟨?_, ?_, ?_⟩
  · simpa using hentries
  · simpa using hcommit
  · rw [hl'] at hsteady ⊢
    exact (follows_commitTo hl.applied_le hsteady).applied

lemma followAll_collects (hl : l.Steady) (hf : Numbered fs) (hag : Agree l.entries fs)
    (hrs : ∀ r ∈ rs, r.CutFrom fs) {current : Term}
    (hok : ∀ a ∈ (l.followAll current rs store).1, a = .ok ()) :
    Collects fs rs l (l.followAll current rs store).2.1 ∧
      (l.followAll current rs store).2.1.Steady := by
  induction rs generalizing l store with
  | nil => exact ⟨.nil, hl⟩
  | cons r rs ih =>
    have hone := hok _ List.mem_cons_self
    have hr := hrs r List.mem_cons_self
    have hagree := (follow_delivery hf hag hr current store).1
    have hsteady := follow_steady hl current r.batch store
    obtain ⟨hall, hend⟩ := ih hsteady hagree (fun q hq => hrs q (List.mem_cons_of_mem r hq))
      (fun a ha => hok a (List.mem_cons_of_mem _ ha))
    exact ⟨(follow_collects hl hf hag hr hone).cons hall, hend⟩

lemma followAll_stored [BallotStore σ] [Reopen σ] [LawfulStore σ] (hl : l.Steady)
    (hs : (contents store).records = l.entries) (current : Term) (rs : List AppendRequest) :
    contents (l.followAll current rs store).2.2 =
      { contents store with records := (l.followAll current rs store).2.1.entries } := by
  induction rs generalizing l store with
  | nil =>
    show contents store = { contents store with records := l.entries }
    rw [← hs]
  | cons r rs ih =>
    have hone := follow_stored hl.numbered hl.commit_le hs current r.batch
    have hsteady := follow_steady hl current r.batch store
    have hheld : (contents (l.follow current r.batch store).2.2).records =
        (l.follow current r.batch store).2.1.entries := by rw [hone]
    refine (ih hsteady hheld).trans ?_
    rw [hone]
    rfl

/-- **A leader's requests may come in any order and any number.** Let the follower's log agree with
the leader's wherever both have an entry of one term. Once a request is taken in, the follower's log
begins as the leader's up to where the request reaches, and it still does after any requests that
come later. And if all requests are taken in, what comes of them is the same for the same requests,
in whatever order and however often they come. -/
theorem deliveries_converge [BallotStore σ] [Reopen σ] [LawfulStore σ] (hl : l.Steady)
    (hs : (contents store).records = l.entries) (hf : Numbered fs) (hag : Agree l.entries fs)
    (current : Term) :
    (∀ rs : List AppendRequest, (∀ r ∈ rs, r.CutFrom fs) → ∀ (k : ℕ) (r : AppendRequest),
      rs[k]? = some r → (l.followAll current rs store).1[k]? = some (.ok ()) →
        fs.take r.lastIndex <+: (l.followAll current rs store).2.1.entries) ∧
    ∀ rs rs' : List AppendRequest, (∀ r ∈ rs, r.CutFrom fs) → (∀ r, r ∈ rs ↔ r ∈ rs') →
      (∀ a ∈ (l.followAll current rs store).1, a = .ok ()) →
      (∀ a ∈ (l.followAll current rs' store).1, a = .ok ()) →
        let out := (l.followAll current rs store).2
        let out' := (l.followAll current rs' store).2
        out.1.entries = out'.1.entries ∧ contents out.2 = contents out'.2 ∧
          out.1.commit = out'.1.commit ∧ out.1.applied = out'.1.applied ∧
          out.1.machine.given = out'.1.machine.given := by
  refine ⟨fun rs hrs => (followAll_begins hf hag hrs current store).2,
    fun rs rs' hrs hsame hok hok' => ?_⟩
  have hrs' : ∀ r ∈ rs', r.CutFrom fs := fun r hr => hrs r ((hsame r).mpr hr)
  have hset : rs.toFinset = rs'.toFinset := by
    ext r
    simpa using hsame r
  obtain ⟨hc, hsteady⟩ := followAll_collects hl hf hag hrs hok
  obtain ⟨hc', hsteady'⟩ := followAll_collects hl hf hag hrs' hok'
  intro out out'
  have hentries : out.1.entries = out'.1.entries := by rw [hc.entries, hc'.entries, hset]
  have hcommit : out.1.commit = out'.1.commit := by rw [hc.commit, hc'.commit, hset]
  have happlied : out.1.applied = out'.1.applied := by rw [hc.applied, hc'.applied, hcommit]
  refine ⟨hentries, ?_, hcommit, happlied, ?_⟩
  · refine (followAll_stored hl hs current rs).trans ?_
    rw [hentries]
    exact (followAll_stored hl hs current rs').symm
  · refine hsteady.given.trans ?_
    rw [happlied, hentries]
    exact hsteady'.given.symm

/-- A leader's log, of which one request holds all and another the second entry. -/
def reigning : List Entry := [⟨1, 1, [0]⟩, ⟨2, 2, [3]⟩, ⟨2, 3, [4]⟩]

def entire : AppendRequest := ⟨2, 2, 0, 0, reigning, 3⟩

/-- The short request is late once, and early and late the other time. -/
theorem deliveries_converge_repeated :
    parted.Steady ∧ Numbered reigning ∧ Agree parted.entries reigning ∧
      sent.CutFrom reigning ∧ entire.CutFrom reigning ∧
      let start : Memory := { records := parted.entries }
      let out := (parted.followAll 2 [sent, entire, sent] start).2
      let out' := (parted.followAll 2 [entire, sent] start).2
      reigning.take 2 <+: out'.1.entries ∧ out.1.entries = out'.1.entries ∧
        out.1.machine.given = out'.1.machine.given ∧ out'.1.machine.given = reigning := by
  have hf : Numbered reigning := by decide
  have hag : Agree parted.entries reigning := by
    rintro (_ | _ | _ | i) e f he hf hterm
    · rfl
    · cases he
      cases hf
      cases hterm
    · cases he
      cases hf
      cases hterm
    · simp [parted] at he
  have hsent : sent.CutFrom reigning := ⟨by decide, by decide, rfl, rfl, by decide⟩
  have hentire : entire.CutFrom reigning := ⟨by decide, by decide, rfl, rfl, by decide⟩
  have hs : (contents ({ records := parted.entries } : Memory)).records = parted.entries := rfl
  obtain ⟨hbegins, hconverge⟩ := deliveries_converge parted_steady hs hf hag 2
  have hrs : ∀ r ∈ [sent, entire, sent], r.CutFrom reigning := by simp [hsent, hentire]
  have hrs' : ∀ r ∈ [entire, sent], r.CutFrom reigning := by simp [hsent, hentire]
  obtain ⟨hentries, -, -, -, hgiven⟩ := hconverge [sent, entire, sent] [entire, sent] hrs
    (fun r => by simp; tauto) (by decide) (by decide)
  exact ⟨parted_steady, hf, hag, hsent, hentire, hbegins _ hrs' 1 sent rfl rfl, hentries, hgiven,
    rfl⟩

end Log

end Quorum
