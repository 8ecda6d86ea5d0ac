import DockerRegistry.Storage.BlobWriter

/-!
# Resumable digests over a driver that keeps the file writer contract

`storagedriver.FileWriter` documents `Size()` as the number of bytes written to
the writer. Over a driver whose writers keep that, the upload's file holds every
byte a `Write` took as soon as the call returns, and `Size()` is the file's
length. This is the blob writer of `Storage.BlobWriter` over such a driver: the
part of a buffer the driver's writer takes reaches `data` at once, and the
in-memory writer of the session stays empty and unused, so `resumeDigest`, which
asks `Writer.size` (the length of `data`), reads the contract's `Size()`.

What the driver's writer takes of each buffer and whether it fails are its
answers, part of each call; any answer that `io.Writer` allows may come. The
driver's other calls (`List` and `GetContent` of the hash states, `PutContent` of
one) are taken to succeed: when one fails, the blob writer returns before it has
changed anything.

The upload keeps one invariant over every run (`Consistent`). `written` never
passes the file's length; when the two agree the digester has hashed the whole
file; and a hash-state file named by the file's current length holds the state
of the whole file. Hash-state files with wrong contents do arise (a `Close` after
`resumeDigest` reset the digester and kept `written` saves the state of the
bytes since the reset under the old count), but always under a name below the
file's length, and the file only grows, so `resumeDigest` never loads one.
-/

namespace DockerRegistry.Storage.Contract

open Driver.Inmemory

/-- The driver writer's answer to one `Write(p)`: how many bytes of `p` the file
took, and whether the call returned an error. -/
structure Answer where
  taken : ℕ
  failed : Bool
  deriving DecidableEq, Repr

/-- What `io.Writer` allows: at most `len(p)` bytes, and an error whenever fewer. -/
def Answer.Valid (p : Bytes) (a : Answer) : Prop :=
  a.taken ≤ p.length ∧ (a.taken < p.length → a.failed = true)

instance (p : Bytes) (a : Answer) : Decidable (a.Valid p) :=
  inferInstanceAs (Decidable (_ ∧ _))

theorem Answer.take_of_valid {p : Bytes} {a : Answer} (h : a.Valid p) (hok : a.failed = false) :
    p.take a.taken = p := by
  have hle := h.1
  have : a.taken = p.length := by
    by_contra hne
    have := h.2 (by omega)
    simp_all
  rw [this, List.take_length]

variable (enabled : Bool)

/-- `Write`: after `resumeDigest`, the file takes its part of `p`; unless the
driver's writer failed, the digester is fed all of `p` and `written` counts it. -/
def write (p : Bytes) (a : Answer) (s : Session) : Session × Except Unit ℕ :=
  let bw := (resumeDigest enabled s).1
  let s := { s with data := s.data ++ p.take a.taken, writer := bw }
  if a.failed then (s, .error ())
  else ({ s with writer := { bw with digester := bw.digester ++ p, written := bw.written + p.length } }, .ok p.length)

/-- The `io.Copy` of `ReadFrom` through `io.TeeReader`. A chunk the reader yields
goes to the file first and is then hashed; on an error the tee hands on the part
the file took and the copy stops. An empty chunk is not written. The bytes the
file took, the bytes hashed, and whether an error stopped the copy. -/
def copyChunks : List (Bytes × Answer) → Bytes × Bytes × Bool
  | [] => ([], [], false)
  | ([], _) :: rest => copyChunks rest
  | (b :: bs, a) :: rest =>
    if a.failed then ((b :: bs).take a.taken, (b :: bs).take a.taken, true)
    else
      let r := copyChunks rest
      ((b :: bs).take a.taken ++ r.1, (b :: bs) ++ r.2.1, r.2.2)

/-- `ReadFrom` of a reader that yields `chunks` and then EOF: the count copied and
whether an error stopped the copy. -/
def readFrom (chunks : List (Bytes × Answer)) (s : Session) : Session × ℕ × Bool :=
  let bw := (resumeDigest enabled s).1
  let r := copyChunks chunks
  ({ s with
      data := s.data ++ r.1
      writer := { bw with digester := bw.digester ++ r.2.1, written := bw.written + r.2.1.length } },
    r.2.1.length, r.2.2)

/-- `Close`: refuse after commit, otherwise save the hash state; closing the
driver's writer leaves the file as it is. -/
def close (s : Session) : Session × Except BlobError Unit :=
  if s.writer.committed then (s, .error .closeAfterCommit) else (storeHashState enabled s, .ok ())

/-- `Commit`: the driver's writer commits (`answer` is its error, if any), then
the blob writer closes, ignoring the result, takes the size, validates, moves,
links and cleans up. -/
def commit (desc : Descriptor) (answer : Option WriterError) (s : Session) :
    Session × Except BlobError Descriptor :=
  match answer with
  | some e => (s, .error (.writer e))
  | none =>
    let s := (close enabled s).1
    let desc := { desc with size := (s.data.length : ℤ) }
    match validateBlob enabled desc s with
    | (s, .error e) => (s, .error e)
    | (s, .ok canonical) =>
      let s := removeResources (linkBlob canonical desc.digest (moveBlob canonical s))
      ({ s with writer := { s.writer with committed := true } }, .ok canonical)

/-- The calls a client makes on an upload, with the driver's answers. -/
inductive Call
  | write (p : Bytes) (a : Answer)
  | readFrom (chunks : List (Bytes × Answer))
  | close
  | resume
  | commit (desc : Descriptor) (answer : Option WriterError)

/-- The driver's answers are ones `io.Writer` allows. -/
def Call.Valid : Call → Prop
  | .write p a => a.Valid p
  | .readFrom chunks => ∀ c ∈ chunks, c.2.Valid c.1
  | _ => True

instance : (c : Call) → Decidable c.Valid
  | .write p a => inferInstanceAs (Decidable (a.Valid p))
  | .readFrom chunks => inferInstanceAs (Decidable (∀ c ∈ chunks, c.2.Valid c.1))
  | .close | .resume | .commit _ _ => isTrue trivial

def Call.apply : Call → Session → Session
  | .write p a, s => (Contract.write enabled p a s).1
  | .readFrom chunks, s => (Contract.readFrom enabled chunks s).1
  | .close, s => (Contract.close enabled s).1
  | .resume, s => (Storage.resume s).1
  | .commit desc answer, s => (Contract.commit enabled desc answer s).1

/-- The sessions of one upload, from `Create` on, through calls made while the
upload exists. -/
inductive Reachable : Session → Prop
  | create : Reachable create
  | step {s : Session} {c : Call} : Reachable s → s.uploadRemoved = false → c.Valid →
      Reachable (c.apply enabled s)

/-! ## The invariant -/

/-- The digester never runs ahead of the file, it has hashed the whole file when
`written` says so, and a hash-state file named by the file's length holds the
state of the whole file. -/
structure Consistent (s : Session) : Prop where
  written_le : s.writer.written ≤ s.data.length
  synced : s.writer.written = s.data.length → s.writer.digester = s.data
  labels_le : ∀ e ∈ s.hashStates, e.1 ≤ s.data.length
  atSize : ∀ e ∈ s.hashStates, e.1 = s.data.length → e.2 = s.data
  noBlobs : s.blobs = []
  notCommitted : s.writer.committed = false

theorem consistent_create : Consistent create :=
  ⟨Nat.zero_le _, fun _ => rfl, by simp [create], by simp [create], rfl, rfl⟩

section

variable {enabled}

/-- What `resumeDigest` can do to a consistent session: nothing, when disabled or
already at the offset; load the state named by the offset, which holds the whole
file; or reset the digester, keep `written` behind the offset, and report the gap. -/
theorem resumeDigest_cases {s : Session} (h : Consistent s) :
    Storage.resumeDigest enabled s = (s.writer, false) ∨
    (Storage.resumeDigest enabled s = (s.writer, true) ∧ s.writer.written = s.data.length) ∨
    Storage.resumeDigest enabled s = ({ s.writer with digester := s.data, written := s.data.length }, true) ∨
    (Storage.resumeDigest enabled s = ({ s.writer with digester := [] }, false) ∧
      s.writer.written < s.data.length) := by
  unfold Storage.resumeDigest Writer.size
  dsimp only
  cases enabled with
  | false => exact .inl rfl
  | true =>
    simp only [Bool.not_true, Bool.false_eq_true, if_false]
    by_cases heq : s.data.length = s.writer.written
    · rw [if_pos heq]
      exact .inr (.inl ⟨rfl, heq.symm⟩)
    · have hlt : s.writer.written < s.data.length := lt_of_le_of_ne h.written_le (Ne.symm heq)
      simp only [heq, if_false]
      cases hfind : s.hashStates.find? (fun x => decide (x.1 = s.data.length)) with
      | none => exact .inr (.inr (.inr ⟨by simp [hlt], hlt⟩))
      | some e =>
        obtain ⟨n, state⟩ := e
        have hn : n = s.data.length := by simpa using List.find?_some hfind
        have hstate : state = s.data := h.atSize _ (List.mem_of_find?_eq_some hfind) hn
        have hpos : n ≠ 0 := by omega
        simp only [hpos, if_false]
        exact .inr (.inr (.inl (by simp [hstate, hn])))

theorem resumeDigest_synced {s : Session} (h : Consistent s) {bw : BlobWriter}
    (hr : Storage.resumeDigest enabled s = (bw, true)) : bw.digester = s.data ∧ bw.written = s.data.length := by
  rcases @resumeDigest_cases enabled s h with h₁ | ⟨h₂, hw⟩ | h₃ | ⟨h₄, -⟩
  · simp [h₁] at hr
  · obtain ⟨rfl, -⟩ := Prod.mk.inj (h₂.symm.trans hr)
    exact ⟨h.synced hw, hw⟩
  · obtain ⟨rfl, -⟩ := Prod.mk.inj (h₃.symm.trans hr)
    exact ⟨rfl, rfl⟩
  · simp [h₄] at hr

theorem Consistent.resumeDigest {s : Session} (h : Consistent s) :
    Consistent { s with writer := (Storage.resumeDigest enabled s).1 } := by
  rcases @resumeDigest_cases enabled s h with h₁ | ⟨h₂, -⟩ | h₃ | ⟨h₄, hlt⟩
  · rw [h₁]
    exact h
  · rw [h₂]
    exact h
  · rw [h₃]
    exact ⟨le_refl _, fun _ => rfl, h.labels_le, h.atSize, h.noBlobs, h.notCommitted⟩
  · rw [h₄]
    exact ⟨h.written_le, fun hw => absurd hw (ne_of_lt hlt), h.labels_le, h.atSize, h.noBlobs, h.notCommitted⟩

theorem Consistent.append_file {s : Session} (h : Consistent s) (q : Bytes) :
    Consistent { s with data := s.data ++ q } := by
  have hw := h.written_le
  refine ⟨by simp; omega, fun hq => ?_, fun e he => ?_, fun e he hq => ?_, h.noBlobs, h.notCommitted⟩
  · have hnil : q = [] := List.length_eq_zero_iff.mp (by simp at hq; omega)
    simpa [hnil] using h.synced (by simpa [hnil] using hq)
  · have := h.labels_le e he
    simp; omega
  · have hle := h.labels_le e he
    have hnil : q = [] := List.length_eq_zero_iff.mp (by simp at hq; omega)
    simpa [hnil] using h.atSize e he (by simpa [hnil] using hq)

theorem Consistent.append_both {s : Session} (h : Consistent s) (q : Bytes) :
    Consistent { s with
      data := s.data ++ q
      writer := { s.writer with digester := s.writer.digester ++ q, written := s.writer.written + q.length } } := by
  have hfile := h.append_file q
  refine ⟨by simpa using h.written_le, fun hq => ?_, hfile.labels_le, hfile.atSize, h.noBlobs, h.notCommitted⟩
  have hw : s.writer.written = s.data.length := by simp at hq; omega
  simp [h.synced hw]

theorem copyChunks_of_valid : ∀ {chunks : List (Bytes × Answer)}, (∀ c ∈ chunks, c.2.Valid c.1) →
    (copyChunks chunks).1 = (copyChunks chunks).2.1
  | [], _ => rfl
  | ([], _) :: rest, hv => by
    rw [copyChunks]
    exact copyChunks_of_valid fun c hc => hv c (List.mem_cons_of_mem _ hc)
  | (b :: bs, a) :: rest, hv => by
    have ih := copyChunks_of_valid fun c hc => hv c (List.mem_cons_of_mem _ hc)
    cases hf : a.failed with
    | true => simp [copyChunks, hf]
    | false =>
      have htake := Answer.take_of_valid (hv _ List.mem_cons_self) hf
      simp only [copyChunks, hf, Bool.false_eq_true, if_false, htake, ih]

theorem Consistent.write {s : Session} (h : Consistent s) {p : Bytes} {a : Answer} (hv : a.Valid p) :
    Consistent (Contract.write enabled p a s).1 := by
  have h₁ := @Consistent.resumeDigest enabled s h
  unfold Contract.write
  cases hf : a.failed with
  | true => exact h₁.append_file (p.take a.taken)
  | false =>
    have h₂ := h₁.append_both p
    simpa [Answer.take_of_valid hv hf] using h₂

theorem Consistent.readFrom {s : Session} (h : Consistent s) {chunks : List (Bytes × Answer)}
    (hv : ∀ c ∈ chunks, c.2.Valid c.1) : Consistent (Contract.readFrom enabled chunks s).1 := by
  have h₁ := (@Consistent.resumeDigest enabled s h).append_both (copyChunks chunks).2.1
  unfold Contract.readFrom
  simpa [copyChunks_of_valid hv] using h₁

theorem Consistent.storeHashState {s : Session} (h : Consistent s) :
    Consistent (Storage.storeHashState enabled s) := by
  unfold Storage.storeHashState
  split_ifs
  · refine ⟨h.written_le, h.synced, fun e he => ?_, fun e he hq => ?_, h.noBlobs, h.notCommitted⟩
    all_goals simp only [Session.putHashState, List.mem_cons, List.mem_filter] at he
    · rcases he with rfl | ⟨he, -⟩
      · exact h.written_le
      · exact h.labels_le e he
    · rcases he with rfl | ⟨he, -⟩
      · exact h.synced hq
      · exact h.atSize e he hq
  · exact h

theorem Consistent.close {s : Session} (h : Consistent s) : Consistent (Contract.close enabled s).1 := by
  unfold Contract.close
  split_ifs
  · exact h
  · exact h.storeHashState

theorem Consistent.resume {s : Session} (h : Consistent s) : Consistent (Storage.resume s).1 := by
  unfold Storage.resume
  split_ifs
  · exact h
  · refine ⟨Nat.zero_le _, fun hw => ?_, h.labels_le, h.atSize, h.noBlobs, rfl⟩
    exact (List.length_eq_zero_iff.mp hw.symm).symm

theorem validateBlob_session (desc : Descriptor) (s : Session) :
    (validateBlob enabled desc s).1 = s ∨
      (validateBlob enabled desc s).1 = { s with writer := (Storage.resumeDigest enabled s).1 } := by
  unfold validateBlob
  dsimp only
  split
  · exact .inl rfl
  · split
    · exact .inl rfl
    · right
      split <;> rfl

theorem Consistent.commit {s : Session} (h : Consistent s) (desc : Descriptor) (answer : Option WriterError)
    (hlive : (Contract.commit enabled desc answer s).1.uploadRemoved = false) :
    Consistent (Contract.commit enabled desc answer s).1 := by
  have hc := @Consistent.close enabled s h
  unfold Contract.commit at hlive ⊢
  cases answer with
  | some e => exact h
  | none =>
    dsimp only at hlive ⊢
    split at hlive
    · rename_i s' e hv
      show Consistent s'
      have hs' := @validateBlob_session enabled
        { desc with size := ((Contract.close enabled s).1.data.length : ℤ) } (Contract.close enabled s).1
      rw [hv] at hs'
      rcases hs' with hs' | hs'
      · rw [show s' = _ from hs']
        exact hc
      · rw [show s' = _ from hs']
        exact hc.resumeDigest
    · simp [removeResources] at hlive

theorem Reachable.consistent {s : Session} (hs : Reachable enabled s) (hlive : s.uploadRemoved = false) :
    Consistent s := by
  induction hs with
  | create => exact consistent_create
  | step hs hprev hv ih =>
    rename_i s c
    have h := ih hprev
    cases c with
    | write p a => exact h.write hv
    | readFrom chunks => exact h.readFrom hv
    | close => exact h.close
    | resume => exact h.resume
    | commit desc answer => exact h.commit desc answer hlive

/-- Over a driver that keeps the file writer contract, on every session an
upload reaches by `Write`, `ReadFrom`, `Close`, `Resume` and `Commit` calls while
it exists: when `resumeDigest` returns nil, the digester has hashed exactly the
file's `Size()` bytes and `written` is `Size()`; and the hash-state file named by
`Size()`, the one `resumeDigest` loads, holds the state of that many leading
bytes. The `resumeDigest` of `Commit` runs on the session after its `Close`,
which is the session of a `Close` call. -/
theorem resumeDigest_restores {s : Session} (hs : Reachable enabled s) (hlive : s.uploadRemoved = false) :
    (∀ bw, Storage.resumeDigest enabled s = (bw, true) → bw.digester = s.data ∧ bw.written = s.data.length) ∧
      ∀ e ∈ s.hashStates, e.1 = s.data.length → e.2 = s.data.take e.1 := by
  have h := hs.consistent hlive
  refine ⟨fun bw hr => resumeDigest_synced h hr, fun e he hn => ?_⟩
  rw [h.atSize e he hn, hn, List.take_length]

end

/-- Two bytes written and closed, then resumed: `resumeDigest` loads the state
saved at offset 2. -/
theorem resumeDigest_restores_ab :
    let s := Call.apply true .resume (Call.apply true .close (Call.apply true (.write [0x61, 0x62] ⟨2, false⟩) create))
    Reachable true s ∧ s.uploadRemoved = false ∧
      Storage.resumeDigest true s = ({ digester := [0x61, 0x62], written := 2 }, true) ∧
      ((∀ bw, Storage.resumeDigest true s = (bw, true) → bw.digester = s.data ∧ bw.written = s.data.length) ∧
        ∀ e ∈ s.hashStates, e.1 = s.data.length → e.2 = s.data.take e.1) := by
  intro s
  have hs : Reachable true s :=
    .step (.step (.step .create rfl (by decide)) rfl trivial) rfl trivial
  have hlive : s.uploadRemoved = false := rfl
  exact ⟨hs, hlive, by decide, resumeDigest_restores hs hlive⟩

/-! ## Committing -/

theorem rehash_sound {content : Bytes} {d canonical : Digest}
    (hc : (d.verified? content).map (fun v => (fromBytes content, v)) = some (canonical, true)) :
    canonical = fromBytes content ∧ d.verified? content = some true := by
  cases hv : d.verified? content <;> simp_all

theorem fullHash_sound {bw : BlobWriter} {content : Bytes}
    (hsync : bw.written = content.length → bw.digester = content) {d canonical : Digest}
    (hc : fullHash bw content.length d content = some (canonical, true)) :
    canonical = fromBytes content ∧ d.verified? content = some true := by
  unfold fullHash at hc
  dsimp only at hc
  by_cases hw : (bw.written : ℤ) = content.length
  · have hd := hsync (by exact_mod_cast hw)
    rw [if_pos hw] at hc
    cases ha : d.algorithm? with
    | none => simp [ha] at hc
    | some a =>
      simp only [ha, Option.map_some, Option.bind_some] at hc
      split_ifs at hc with hu
      · obtain ⟨-, rfl⟩ := hu
        simp only [Option.some.injEq, Prod.mk.injEq] at hc
        rw [← hc.1, hd]
        exact ⟨rfl, verified_fromBytes content⟩
      · exact rehash_sound hc
  · rw [if_neg hw] at hc
    simp only [Option.bind_some, Bool.false_eq_true, false_and, if_false] at hc
    exact rehash_sound hc

theorem checkDigest_sound {resumed : Bool} {bw : BlobWriter} {content : Bytes}
    (hsync : bw.written = content.length → bw.digester = content)
    (hres : resumed = true → bw.digester = content) {d canonical : Digest}
    (hc : checkDigest resumed bw content.length d content = some (canonical, true)) :
    canonical = fromBytes content ∧ d.verified? content = some true := by
  unfold checkDigest at hc
  cases resumed with
  | false => exact fullHash_sound hsync hc
  | true =>
    have hd := hres rfl
    cases ha : d.algorithm? with
    | none => simp [ha] at hc
    | some a =>
      simp only [ha, Option.bind_some, if_true] at hc
      split_ifs at hc
      · simp only [Option.some.injEq, Prod.mk.injEq, beq_iff_eq] at hc
        obtain ⟨rfl, hdeq⟩ := hc
        rw [hdeq, hd]
        exact ⟨rfl, verified_fromBytes content⟩
      · exact fullHash_sound hsync hc

theorem checkDigest_complete {resumed : Bool} {bw : BlobWriter} {content : Bytes}
    (hsync : bw.written = content.length → bw.digester = content)
    (hres : resumed = true → bw.digester = content) :
    checkDigest resumed bw content.length (fromBytes content) content = some (fromBytes content, true) := by
  have hfull : fullHash bw content.length (fromBytes content) content = some (fromBytes content, true) := by
    unfold fullHash
    dsimp only
    by_cases hw : (bw.written : ℤ) = content.length
    · have hd := hsync (by exact_mod_cast hw)
      simp [hw, hd, Algorithm.canonical]
    · simp [hw]
  unfold checkDigest
  cases resumed with
  | false => exact hfull
  | true => simp [hres rfl, Algorithm.canonical]

section

variable {enabled}

theorem Consistent.resumeDigest_digester {s : Session} (h : Consistent s) :
    ((Storage.resumeDigest enabled s).1.written = s.data.length →
        (Storage.resumeDigest enabled s).1.digester = s.data) ∧
      ((Storage.resumeDigest enabled s).2 = true → (Storage.resumeDigest enabled s).1.digester = s.data) :=
  ⟨(@Consistent.resumeDigest enabled s h).synced,
    fun hr => (resumeDigest_synced h (Prod.ext rfl hr : Storage.resumeDigest enabled s = (_, true))).1⟩

theorem validateBlob_sound {s : Session} (h : Consistent s) {desc : Descriptor}
    (hsize : desc.size = s.data.length) {s' : Session} {c : Descriptor}
    (hv : validateBlob enabled desc s = (s', .ok c)) :
    c.digest = fromBytes s.data ∧ c.size = s.data.length ∧ desc.digest.verified? s.data = some true ∧
      s'.data = s.data ∧ s'.blobs = s.blobs := by
  have hne : desc.digest ≠ "" := by
    rintro hempty
    simp [validateBlob, hempty] at hv
  have hsz : ¬(0 < desc.size ∧ desc.size ≠ (s.data.length : ℤ)) := by simp [hsize]
  have hdesc : (if 0 < desc.size then desc else { desc with size := (s.data.length : ℤ) }) = desc := by
    split_ifs <;> cases desc <;> simp_all
  obtain ⟨hsync, hres⟩ := @Consistent.resumeDigest_digester enabled s h
  simp only [validateBlob, hne, hsz, if_false, hdesc] at hv
  split at hv
  · simp at hv
  · simp at hv
  · rename_i canonical hc
    obtain ⟨hcan, hver⟩ := checkDigest_sound hsync hres hc
    simp only [Prod.mk.injEq, Except.ok.injEq] at hv
    obtain ⟨rfl, rfl⟩ := hv
    exact ⟨hcan, hsize, hver, rfl, rfl⟩

theorem validateBlob_complete {s : Session} (h : Consistent s) {desc : Descriptor}
    (hsize : desc.size = s.data.length) (hd : desc.digest = fromBytes s.data) :
    ∃ s' c, validateBlob enabled desc s = (s', .ok c) := by
  have hne : desc.digest ≠ "" := hd ▸ fromBytes_ne_empty s.data
  have hsz : ¬(0 < desc.size ∧ desc.size ≠ (s.data.length : ℤ)) := by simp [hsize]
  have hdesc : (if 0 < desc.size then desc else { desc with size := (s.data.length : ℤ) }) = desc := by
    split_ifs <;> cases desc <;> simp_all
  obtain ⟨hsync, hres⟩ := @Consistent.resumeDigest_digester enabled s h
  simp only [validateBlob, hne, hsz, if_false, hdesc]
  rw [hd, checkDigest_complete hsync hres]
  exact ⟨_, _, rfl⟩

theorem close_data (s : Session) : (Contract.close enabled s).1.data = s.data := by
  unfold Contract.close Storage.storeHashState
  split_ifs <;> rfl

/-- Over a driver that keeps the file writer contract, on every session an upload
reaches while it exists, a `Commit` that succeeds stores the file's bytes as the
blob of the canonical digest, which is their SHA-256 digest, with their length,
and the provided digest verifies them; and a `Commit` whose provided digest is
their digest succeeds when the driver's writer commits. -/
theorem commit_stores_upload {s : Session} (hs : Reachable enabled s) (hlive : s.uploadRemoved = false)
    (desc : Descriptor) :
    (∀ s' c, Contract.commit enabled desc none s = (s', .ok c) →
      s'.blobData c.digest = some s.data ∧ c.digest = fromBytes s.data ∧ c.size = s.data.length ∧
        desc.digest.verified? s.data = some true) ∧
    (desc.digest = fromBytes s.data → ∃ s' c, Contract.commit enabled desc none s = (s', .ok c)) := by
  have h := @Consistent.close enabled s (hs.consistent hlive)
  have hdata := @close_data enabled s
  have hsize : ({ desc with size := ((Contract.close enabled s).1.data.length : ℤ) } : Descriptor).size =
      (Contract.close enabled s).1.data.length := rfl
  constructor
  · intro s' c hc
    unfold Contract.commit at hc
    dsimp only at hc
    split at hc
    · simp at hc
    · rename_i s₂ canonical hv
      obtain ⟨hcan, hsz, hver, hd₂, hb₂⟩ := validateBlob_sound h hsize hv
      simp only [Prod.mk.injEq, Except.ok.injEq] at hc
      obtain ⟨rfl, rfl⟩ := hc
      refine ⟨?_, hdata ▸ hcan, by rw [hsz, hdata], by simpa [hdata] using hver⟩
      simp [Session.blobData, moveBlob, linkBlob, removeResources, hb₂, h.noBlobs, hd₂, hdata]
  · intro hd
    obtain ⟨s₂, c, hv⟩ := validateBlob_complete h hsize (by simpa [hdata] using hd)
    unfold Contract.commit
    dsimp only
    rw [hv]
    exact ⟨_, c, rfl⟩

end

/-- The resumed two-byte upload commits under the digest of its bytes. -/
theorem commit_stores_upload_ab :
    let s := Call.apply true .resume (Call.apply true .close (Call.apply true (.write [0x61, 0x62] ⟨2, false⟩) create))
    let desc : Descriptor := { digest := fromBytes [0x61, 0x62] }
    Reachable true s ∧ s.uploadRemoved = false ∧
      ((∀ s' c, Contract.commit true desc none s = (s', .ok c) →
        s'.blobData c.digest = some s.data ∧ c.digest = fromBytes s.data ∧ c.size = s.data.length ∧
          desc.digest.verified? s.data = some true) ∧
      (desc.digest = fromBytes s.data → ∃ s' c, Contract.commit true desc none s = (s', .ok c))) := by
  intro s desc
  have hs : Reachable true s :=
    .step (.step (.step .create rfl (by decide)) rfl trivial) rfl trivial
  have hlive : s.uploadRemoved = false := rfl
  exact ⟨hs, hlive, commit_stores_upload hs hlive desc⟩

end DockerRegistry.Storage.Contract
