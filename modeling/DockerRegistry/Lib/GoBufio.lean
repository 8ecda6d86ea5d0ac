import DockerRegistry.Lib.GoIo

/-!
# Go's bufio.Reader

The `Read` of a `bufio.Reader`: it answers from its buffer while the buffer holds
bytes, and refills the buffer with one read of the underlying reader once it is
empty; a read of at least the buffer's size goes to the underlying reader
directly. An error of the underlying reader is kept until the buffer is drained.

The buffer is modelled by the bytes between its read and write positions, and
the state of the underlying reader. What a `bufio.Reader` still yields is
`rest`: the buffered bytes, then what the underlying reader yields. `read_spec`
says that under `YieldsChunks` a `Read` serves the next bytes of `rest`, at
least one while any are left.
-/

namespace GoIo

variable {σ : Type}

/-- A `bufio.Reader` over a reader in state `rd`: `buf` is `b.buf[b.r:b.w]`, `err`
the kept error of the underlying reader. -/
structure BufReader (σ : Type) where
  buf : List UInt8
  rd : σ
  err : Option Error

/-- `bufio.NewReaderSize`, and `Reset`, which keeps the buffer's memory only. -/
def BufReader.new (rd : σ) : BufReader σ := ⟨[], rd, none⟩

/-- `bufio.Reader.Read` into a buffer of `m` bytes, for a buffer of `size`
bytes. -/
def BufReader.read (r : Reader σ) (size : ℕ) (b : BufReader σ) (m : ℕ) :
    Except String ((List UInt8 × Option Error) × BufReader σ) :=
  if m = 0 then
    if b.buf ≠ [] then .ok (([], none), b) else .ok (([], b.err), { b with err := none })
  else if b.buf = [] then
    match b.err with
    | some e => .ok (([], some e), { b with err := none })
    | none =>
      if size ≤ m then
        -- large read, empty buffer: read directly into the caller's buffer
        match r b.rd m with
        | .error e => .error e
        | .ok ((bytes, err), rd) => .ok ((bytes, err), { b with rd := rd, err := none })
      else
        -- one read into the buffer; `fill` is not used, as it would loop
        match r b.rd size with
        | .error e => .error e
        | .ok ((bytes, err), rd) =>
          if bytes = [] then .ok (([], err), { b with rd := rd, err := none })
          else .ok ((bytes.take m, none), ⟨bytes.drop m, rd, err⟩)
  else .ok ((b.buf.take m, none), { b with buf := b.buf.drop m })

/-- What the reader still yields: the buffered bytes, then the underlying reader's. -/
def BufReader.rest (content : σ → List UInt8) (b : BufReader σ) : List UInt8 :=
  b.buf ++ content b.rd

/-- The kept error is `io.EOF` at most, and only once the underlying reader is at
its end. -/
def BufReader.Good (content : σ → List UInt8) (b : BufReader σ) : Prop :=
  b.err = none ∨ b.err = some .eof ∧ content b.rd = []

theorem BufReader.good_new (content : σ → List UInt8) (rd : σ) : (BufReader.new rd).Good content :=
  .inl rfl

@[simp] theorem BufReader.rest_new (content : σ → List UInt8) (rd : σ) :
    (BufReader.new rd).rest content = content rd := rfl

section Spec

variable {r : Reader σ} {content : σ → List UInt8}

/-- What a `Read` of `m` bytes answers: the next bytes of `rest`, at most `m` of
them and at least one while any are left, with no error or with `io.EOF` at the
end, and a reader whose `rest` is what follows them. -/
def BufReader.Serves (content : σ → List UInt8) (b : BufReader σ) (m : ℕ) (bytes : List UInt8)
    (err : Option Error) (b' : BufReader σ) : Prop :=
  b'.Good content ∧ b.rest content = bytes ++ b'.rest content ∧ bytes.length ≤ m ∧
    (0 < m → b.rest content ≠ [] → bytes ≠ []) ∧ (err = none ∨ err = some .eof ∧ b'.rest content = [])

theorem BufReader.serves_of_read (b : BufReader σ) {m : ℕ} {bytes : List UInt8}
    {err : Option Error} {rd : σ} (hbuf : b.buf = []) (hcontent : content b.rd = bytes ++ content rd)
    (hne : bytes ≠ []) (hlen : bytes.length ≤ m) (herr : err = none ∨ err = some .eof ∧ content rd = []) :
    b.Serves content m bytes err { b with rd := rd, err := none } := by
  refine ⟨.inl rfl, by simp [BufReader.rest, hbuf, hcontent], hlen, fun _ _ => hne, ?_⟩
  simpa [BufReader.rest, hbuf] using herr

theorem BufReader.serves_of_end (b : BufReader σ) (m : ℕ) {rd : σ} (hbuf : b.buf = [])
    (hend : content b.rd = []) (hrd : content rd = []) :
    b.Serves content m [] (some .eof) { b with rd := rd, err := none } := by
  refine ⟨.inl rfl, by simp [BufReader.rest, hbuf, hend, hrd], Nat.zero_le _, ?_, .inr ⟨rfl, ?_⟩⟩
  · simp [BufReader.rest, hbuf, hend]
  · simp [BufReader.rest, hbuf, hrd]

theorem BufReader.read_spec (hr : YieldsChunks r content) {size : ℕ} (hsize : 0 < size)
    (b : BufReader σ) (hb : b.Good content) (m : ℕ) :
    ∃ bytes err b', b.read r size m = .ok ((bytes, err), b') ∧ b.Serves content m bytes err b' := by
  by_cases hm : m = 0
  · subst hm
    by_cases hbuf : b.buf = []
    · refine ⟨[], b.err, { b with err := none }, by simp [BufReader.read, hbuf], .inl rfl, rfl,
        le_rfl, fun h => absurd h (lt_irrefl 0), ?_⟩
      rcases hb with hb | ⟨hb, hend⟩
      · exact .inl hb
      · exact .inr ⟨hb, by simp [BufReader.rest, hbuf, hend]⟩
    · exact ⟨[], none, b, by simp [BufReader.read, hbuf], hb, rfl, le_rfl, fun h => absurd h (lt_irrefl 0), .inl rfl⟩
  have hm' : 0 < m := Nat.pos_of_ne_zero hm
  by_cases hbuf : b.buf = []
  · rcases hb with hb | ⟨hb, hend⟩
    · by_cases hend : content b.rd = []
      · obtain ⟨rd, hread, hrd⟩ := hr.read_nil b.rd (if size ≤ m then m else size)
          (by split_ifs <;> omega) hend
        refine ⟨[], some .eof, { b with rd := rd, err := none }, ?_, b.serves_of_end m hbuf hend hrd⟩
        by_cases hlarge : size ≤ m
        · simp_all [BufReader.read]
        · simp_all [BufReader.read]
      · by_cases hlarge : size ≤ m
        · obtain ⟨bytes, err, rd, hread, hcontent, hne, hlen, herr⟩ := hr.read_cons b.rd m hm' hend
          exact ⟨bytes, err, _, by simp [BufReader.read, hm, hbuf, hb, hlarge, hread],
            b.serves_of_read hbuf hcontent hne hlen herr⟩
        · obtain ⟨bytes, err, rd, hread, hcontent, hne, hlen, herr⟩ := hr.read_cons b.rd size hsize hend
          refine ⟨bytes.take m, none, ⟨bytes.drop m, rd, err⟩,
            by simp [BufReader.read, hm, hbuf, hb, hlarge, hread, hne], herr, ?_, List.length_take_le _ _,
            fun _ _ => by simpa [List.take_eq_nil_iff, hm] using hne, .inl rfl⟩
          rw [BufReader.rest, hbuf, List.nil_append, hcontent, BufReader.rest, ← List.append_assoc,
              List.take_append_drop]
    · refine ⟨[], some .eof, { b with err := none }, by simp [BufReader.read, hm, hbuf, hb], .inl rfl,
        by simp [BufReader.rest, hbuf, hend], Nat.zero_le _, ?_, .inr ⟨rfl, ?_⟩⟩
      · simp [BufReader.rest, hbuf, hend]
      · simp [BufReader.rest, hbuf, hend]
  · refine ⟨b.buf.take m, none, { b with buf := b.buf.drop m }, by simp [BufReader.read, hm, hbuf], hb,
      by rw [BufReader.rest, BufReader.rest, ← List.append_assoc, List.take_append_drop],
      List.length_take_le _ _, fun _ _ => ?_, .inl rfl⟩
    simpa [List.take_eq_nil_iff, hm] using hbuf

end Spec

end GoIo
