import CacheShfs.Store.Reopen

/-!
# Content of one version

Any number of reads, interleaved step by step with each other, with the other operations of the
store, with changes that others make at the remote, and with restarts over the same directory.
The remote may fail at any time.

A content reference carries the size and the modification time of the version that it holds, and
a download is never compared with the remote again.  Where every pass of every download loop finds
the file as the attributes of its read say (`AsksCurrent`), the chunks under a reference are those
of the version that is labelled, and what a read returns, with the remote or offline, are bytes of
one version (`version_pure`).  Where a change lands between the attributes and a pass, or between
two chunks, they are not (`stitched_read`).

Which file a path stands for is a parameter `name`, which a rename keeps: of one file, every change
gives a new size or modification time (`NewVersions`).
-/

namespace CacheShfs

open Interleave Machine Slice

open ReadTask (chunkOf pieceOf)

/-- `V key size modified f`: the version with this size and modification time of the file at `key`
has the bytes `f`. -/
abbrev Versions := Str → UInt64 → Option Int → Bytes → Prop

/-- A size and a modification time say which version of a file it is. -/
structure Versions.Distinct (V : Versions) : Prop where
  unique : ∀ key size m f f', V key size m f → V key size m f' → f = f'
  length : ∀ key size m f, V key size m f → size.toNat = f.length
  small : ∀ key size m f, V key size m f → f.length ≤ 2 ^ 63

namespace Store

variable {V : Versions} {s s' : Store}

/-- The bytes of a chunk are those of the version that is labelled. -/
def Pieces (V : Versions) (key : Str) (l : Label) (k : ℕ) (b : Bytes) : Prop :=
  ∃ f, V key l.size l.modified f ∧ k * l.chunkSize < f.length ∧ b = chunkOf f l.chunkSize k

/-- A chunk map leads to chunks of `f`, or to objects that have been deleted. -/
def Leads (f : Bytes) (chunks : FMap ℕ ℕ) (rest : List ℕ) (s : Store) : Prop :=
  ∀ k ∈ rest, ∀ o, chunks.lookup k = some o → o < s.index.nextObject ∧
    k * s.chunkSize < f.length ∧
    (s.object o = none ∨ s.object o = some (chunkOf f s.chunkSize k))

/-! ## What is cached -/

/-- All chunks of a content reference are those of one version, the one that it is labelled
with. -/
lemma Sound.version (hs : Sound (Pieces V) s) (hy : Synced s) (hV : V.Distinct) {key : Str}
    {c : ContentRef} (hc : s.content key = some c) :
    ∃ f, V key c.size c.modified f ∧ ∀ k o, c.chunks.lookup k = some o →
      o < s.index.nextObject ∧ k * c.chunkSize < f.length ∧
        s.object o = some (chunkOf f c.chunkSize k) := by
  -- the reference has at least one chunk
  obtain ⟨o₀, ho₀⟩ := List.exists_mem_of_ne_nil _ (hy.filled key c hc)
  obtain ⟨k₀, hk₀⟩ := (hs.mem_contentObjects hc).mp ho₀
  obtain ⟨b₀, -, f, hf, -⟩ := hs.good key c k₀ o₀ ⟨hc, hk₀⟩
  refine ⟨f, hf, fun k o hk => ?_⟩
  obtain ⟨b, hb, f', hf', hlt, rfl⟩ := hs.good key c k o ⟨hc, hk⟩
  obtain rfl : f' = f := hV.unique _ _ _ _ _ hf' hf
  exact ⟨hs.below key c k o ⟨hc, hk⟩, hlt, hb⟩

/-- A piece that can be read is one of the version. -/
lemma Leads.piece {f : Bytes} {chunks : FMap ℕ ℕ} {offset stop k : ℕ} {rest : List ℕ}
    (h : Leads f chunks (k :: rest) s) (hf : f.length ≤ 2 ^ 63) (hlt : offset < stop)
    (hsmall : stop - offset < 2 ^ 32) (hk : k ∈ chunkRange offset stop s.chunkSize)
    {piece : Bytes} (hpiece : s.readPiece chunks offset stop k = .ok piece) :
    piece = slice f (max offset (k * s.chunkSize)) (min stop (k * s.chunkSize + s.chunkSize)) := by
  cases hlookup : chunks.lookup k with
  | none =>
      simp only [readPiece, hlookup] at hpiece
      cases hpiece
  | some o =>
      obtain ⟨-, hin, hobject⟩ := h k (by simp) o hlookup
      rcases hobject with hnone | hobject
      · simp only [readPiece, hlookup, readObject, hnone] at hpiece
        cases hpiece
      · obtain ⟨hstart, hend⟩ := mem_chunkRange s.chunkSize_pos hlt hk
        rw [readPiece_ok hlookup hobject hstart hend hlt hsmall
          (noOverflow_of_size hf s.chunkSize_lt k hin)] at hpiece
        exact (Except.ok.inj hpiece).symm

lemma Leads.tail {f : Bytes} {chunks : FMap ℕ ℕ} {k : ℕ} {rest : List ℕ}
    (h : Leads f chunks (k :: rest) s) : Leads f chunks rest s :=
  fun j hj => h j (List.mem_cons_of_mem _ hj)

/-- What the assembly loop returns are the pieces of the version. -/
lemma Leads.pieces {f : Bytes} {chunks : FMap ℕ ℕ} {offset stop : ℕ} (hf : f.length ≤ 2 ^ 63)
    (hlt : offset < stop) (hsmall : stop - offset < 2 ^ 32) (rest : List ℕ) (data : Bytes)
    (h : Leads f chunks rest s) (hrest : ∀ k ∈ rest, k ∈ chunkRange offset stop s.chunkSize)
    {answer : Bytes} (hanswer : s.readPieces chunks offset stop rest data = .ok answer) :
    answer = data ++ rest.flatMap fun k => slice f (max offset (k * s.chunkSize))
      (min stop (k * s.chunkSize + s.chunkSize)) := by
  induction rest generalizing data with
  | nil =>
      rw [readPieces] at hanswer
      rw [List.flatMap_nil, List.append_nil]
      exact (Except.ok.inj hanswer).symm
  | cons k rest ih =>
      rw [readPieces] at hanswer
      cases hpiece : s.readPiece chunks offset stop k with
      | error e =>
          rw [hpiece] at hanswer
          cases hanswer
      | ok piece =>
          rw [hpiece] at hanswer
          have hone := h.piece hf hlt hsmall (hrest k (by simp)) hpiece
          rw [ih _ h.tail (fun j hj => hrest j (List.mem_cons_of_mem _ hj)) hanswer, hone,
            List.flatMap_cons, List.append_assoc]

/-- **An offline read** returns the requested bytes of one version. -/
lemma Sound.readCached_version (hs : Sound (Pieces V) s) (hy : Synced s) (hV : V.Distinct)
    {path : RemotePath} {offset : UInt64} {size : UInt32} {data : Bytes}
    (h : s.readCached path offset size = .ok data) :
    ∃ c f, s.content path.asStr = some c ∧ V path.asStr c.size c.modified f ∧
      data = requested f offset size := by
  unfold readCached at h
  cases hc : s.content path.asStr with
  | none =>
      rw [hc] at h
      cases h
  | some c =>
      obtain ⟨f, hf, hall⟩ := hs.version hy hV hc
      have hlen := hV.length _ _ _ _ hf
      refine ⟨c, f, rfl, hf, ?_⟩
      simp only [hc] at h
      split at h
      · next hsize =>
          split at h
          · next hempty =>
              rw [← Except.ok.inj h, requested, slice_eq_nil_of_le]
              rcases hempty with hzero | hle
              · simp [hzero]
              · have := UInt64.le_iff_toNat_le.mp hle
                omega
          · next hempty =>
              simp only [not_or, UInt64.not_le] at hempty
              obtain ⟨hlt, hstop, hsmall⟩ := readStop_spec hempty.1 hempty.2
              simp only [readCachedRange, chunkMap, hc, if_pos hsize] at h
              have hleads : Leads f c.chunks
                  (chunkRange offset.toNat (readStop offset size c.size) s.chunkSize) s := by
                intro k _ o hk
                obtain ⟨hnext, hin, hobject⟩ := hall k o hk
                rw [← hsize]
                exact ⟨hnext, hin, .inr hobject⟩
              rw [hleads.pieces (hV.small _ _ _ _ hf) hlt hsmall _ _ (fun _ hk => hk) h,
                List.nil_append, chunkRange, max_eq_left s.chunkSize_pos,
                chunk_assembly f s.chunkSize_pos hlt, requested, hstop, hlen]
      · cases h

end Store

namespace ReadTask

variable {ρ : Type} {R : RemoteFilesystem ρ} {view : ρ → Tree} {V : Versions} {a : ReadArgs}
  {w w' : StoreWorld ρ} {pc pc' : ReadPc}

/-! ## A read of one version -/

/-- The bytes that a read has got so far are those of one version: of the one that it works with
while it downloads, and of the one that its snapshot was labelled with afterwards. -/
def Holds (V : Versions) (a : ReadArgs) (s : Store) : ReadPc → Prop
  | .fill chunk _ _ temp filled => ∃ f,
      (0 < filled → V a.path.asStr a.attrs.size a.attrs.modifiedUnixSeconds f) ∧
      filled ≤ s.chunkLen a.attrs chunk ∧ s.disk.temps.lookup temp =
        some (slice f (chunk * s.chunkSize) (chunk * s.chunkSize + filled))
  | .install chunk _ _ temp => ∃ b,
      Store.Pieces V a.path.asStr (a.attrs.label s.chunkSize) chunk b ∧
        s.disk.temps.lookup temp = some b
  | .record chunk _ object => ∃ b,
      Store.Pieces V a.path.asStr (a.attrs.label s.chunkSize) chunk b ∧ s.object object = some b
  | .assemble chunks rest data => ∃ size m f, V a.path.asStr size m f ∧
      s.Leads f chunks rest ∧ ∃ opened, a.range s.chunkSize = opened ++ rest ∧
        data = opened.flatMap (pieceOf f a s.chunkSize)
  | .done answer => ∀ data, answer = .ok data →
      data = [] ∨ ∃ size m f, V a.path.asStr size m f ∧ data = slice f a.offset.toNat a.stop
  | _ => True

/-- **The assertion of a read** whose downloads are all of one version. -/
structure OfVersion (V : Versions) (a : ReadArgs) (s : Store) (pc : ReadPc) : Prop where
  active : (∀ answer, pc ≠ .done answer) → Active a
  wanted : ∀ rest, remaining pc = some rest → ∀ k ∈ rest, k * s.chunkSize < a.attrs.size.toNat
  holds : Holds V a s pc

/-- Where a read that asks for something stops. -/
lemma Active.spec (h : Active a) : a.offset.toNat < a.stop ∧
    a.stop ≤ a.attrs.size.toNat ∧ a.stop - a.offset.toNat < 2 ^ 32 := by
  simp only [Active, not_or, UInt64.not_le] at h
  obtain ⟨hlt, hstop, hsmall⟩ := Store.readStop_spec h.1 h.2
  refine ⟨hlt, ?_, hsmall⟩
  show Store.readStop _ _ _ ≤ _
  omega

lemma ofVersion_start (a : ReadArgs) (s : Store) : OfVersion V a s (start a s.chunkSize).pc := by
  unfold start
  by_cases hempty : a.size = 0 ∨ a.attrs.size ≤ a.offset
  · rw [if_pos hempty]
    refine ⟨fun h => absurd rfl (h _), nofun, fun data hdata => .inl ?_⟩
    exact (Except.ok.inj hdata).symm
  · rw [if_neg hempty]
    have hactive : Active a := hempty
    refine ⟨fun _ => hactive, fun rest hrest k hk => ?_, trivial⟩
    cases hrest
    obtain ⟨hlt, hle, -⟩ := hactive.spec
    exact lt_of_lt_of_le (Store.mem_chunkRange s.chunkSize_pos hlt hk).1 hle

/-- A pass of the download loop finds what the read works with. -/
def FindsVersion (view : ρ → Tree) (V : Versions) (a : ReadArgs) (w : StoreWorld ρ) (pc : ReadPc) :
    Prop :=
  ∀ chunk rest object temp filled, pc = .fill chunk rest object temp filled →
    filled < w.store.chunkLen a.attrs chunk → ∀ f m, view w.conn.remote a.path.asStr =
      some (.file f m) → V a.path.asStr a.attrs.size a.attrs.modifiedUnixSeconds f

/-- A pass goes on with the version of the passes before. -/
lemma Holds.pass (hR : TruthfulReads R view) (hV : V.Distinct) {chunk filled : ℕ} {rest : List ℕ}
    {object : ℕ} {temp : TempName} (h : Holds V a w.store (.fill chunk rest object temp filled))
    (hin : chunk * w.store.chunkSize < a.attrs.size.toNat)
    (hnow : FindsVersion view V a w (.fill chunk rest object temp filled))
    (hlt : filled < w.store.chunkLen a.attrs chunk) {data : Bytes} {conn : Conn ρ}
    (hread : w.conn.read R a.path (chunk * w.store.chunkSize + filled)
      (Store.want (w.store.chunkLen a.attrs chunk) filled) = (.ok data, conn)) :
    ∃ f, V a.path.asStr a.attrs.size a.attrs.modifiedUnixSeconds f ∧ data ≠ [] ∧
      filled + data.length ≤ w.store.chunkLen a.attrs chunk ∧
      ∃ b, w.store.disk.temps.lookup temp = some b ∧ b ++ data = slice f
        (chunk * w.store.chunkSize) (chunk * w.store.chunkSize + (filled + data.length)) := by
  obtain ⟨g, hg, -, htemp⟩ := h
  obtain ⟨f, m, hview, hinitial, hne⟩ := hR.read_ok _ _ _ _ _ (Conn.read_eq hread).1
  have hf := hnow _ _ _ _ _ rfl hlt f m hview
  obtain ⟨-, hlen⟩ := slice_chunkLen (hV.length _ _ _ _ hf) w.store chunk
    (by rw [← hV.length _ _ _ _ hf]; exact hin)
  obtain ⟨hdata, hle, happend⟩ := Store.pass_appends hlen hlt hinitial hne
  refine ⟨f, hf, hdata, hle, _, htemp, ?_⟩
  rcases Nat.eq_zero_or_pos filled with rfl | hpos
  · -- nothing has been downloaded before
    rw [Nat.add_zero, slice_eq_nil_of_le g (le_refl _)]
    rw [Nat.add_zero, slice_eq_nil_of_le f (le_refl _)] at happend
    exact happend
  · obtain rfl : g = f := hV.unique _ _ _ _ _ (hg hpos) hf
    exact happend

/-- A download that is complete holds a chunk of the version. -/
lemma Holds.complete (hV : V.Distinct) {chunk filled : ℕ} {rest : List ℕ} {object : ℕ}
    {temp : TempName} {s : Store} (h : Holds V a s (.fill chunk rest object temp filled))
    (hin : chunk * s.chunkSize < a.attrs.size.toNat) (hle : s.chunkLen a.attrs chunk ≤ filled) :
    Holds V a s (.install chunk rest object temp) := by
  obtain ⟨f, hf, hle', htemp⟩ := h
  obtain rfl : filled = s.chunkLen a.attrs chunk := le_antisymm hle' hle
  have hpos : 0 < s.chunkLen a.attrs chunk := by
    have hcs := s.chunkSize_pos
    show 0 < min (a.attrs.size.toNat - chunk * s.chunkSize) s.chunkSize
    omega
  have hlen := hV.length _ _ _ _ (hf hpos)
  have hin' : chunk * s.chunkSize < f.length := by
    rw [← hlen]
    exact hin
  rw [(slice_chunkLen hlen s chunk hin').1] at htemp
  exact ⟨_, ⟨f, hf hpos, hin', rfl⟩, htemp⟩

lemma OfVersion.of_remaining {s s' : Store} (h : OfVersion V a s pc)
    (hsize : s'.chunkSize = s.chunkSize) {rest rest' : List ℕ}
    (hpc : remaining pc = some rest) (hpc' : remaining pc' = some rest')
    (hsub : rest' ⊆ rest) (hholds : Holds V a s' pc') : OfVersion V a s' pc' where
  active _ := h.active fun answer heq => by rw [heq] at hpc; cases hpc
  wanted rest'' hrest k hk := by
    obtain rfl : rest' = rest'' := Option.some.inj (hpc'.symm.trans hrest)
    rw [hsize]
    exact h.wanted rest hpc k (hsub hk)
  holds := hholds

lemma ofVersion_failed (V : Versions) (a : ReadArgs) (s : Store) (e : Error) :
    OfVersion V a s (.done (.error e)) where
  active h := absurd rfl (h _)
  wanted := nofun
  holds := nofun

/-- **One step of a read**, where a pass finds the version that the read works with. -/
lemma Steps.ofVersion (hR : TruthfulReads R view) (hV : V.Distinct) (h : Steps R a w pc pc' w')
    (hs : w.store.Sound (Store.Pieces V)) (hy : w.store.Synced) (hp : OfVersion V a w.store pc)
    (hnow : FindsVersion view V a w pc) : OfVersion V a w'.store pc' := by
  cases h with
  | found hcached => exact hp.of_remaining rfl rfl rfl (List.subset_cons_self _ _) trivial
  | missed _ => exact hp.of_remaining rfl rfl rfl (List.Subset.refl _) trivial
  | @snapshot chunks hmap =>
      obtain ⟨c, hc, hsize, rfl⟩ : ∃ c, w.store.content a.path.asStr = some c ∧
          c.chunkSize = w.store.chunkSize ∧ c.chunks = chunks := by
        unfold Store.chunkMap at hmap
        split at hmap
        · next c hc =>
            split at hmap
            · next hsize => exact ⟨c, hc, hsize, Except.ok.inj hmap⟩
            · cases hmap
        · cases hmap
      obtain ⟨f, hf, hall⟩ := hs.version hy hV hc
      refine ⟨fun _ => hp.active (fun _ h => by cases h), (fun _ h => by cases h), c.size,
        c.modified, f, hf, ?_, [], rfl, rfl⟩
      intro k _ o hk
      obtain ⟨hnext, hin, hobject⟩ := hall k o hk
      rw [← hsize]
      exact ⟨hnext, hin, .inr hobject⟩
  | noContent _ => exact ofVersion_failed _ _ _ _
  | alloc => exact hp.of_remaining rfl rfl rfl (List.Subset.refl _) trivial
  | create =>
      refine hp.of_remaining rfl rfl rfl (List.Subset.refl _) ⟨[],
        fun h => absurd h (lt_irrefl 0), Nat.zero_le _, ?_⟩
      rw [Nat.add_zero, slice_eq_nil_of_le [] (le_refl _)]
      exact AList.lookup_insert _
  | @arrived chunk rest object temp filled data conn hlt hread hdata =>
      have hin := hp.wanted _ rfl chunk (by simp)
      obtain ⟨f, hf, -, hle, b, htemp, hb⟩ := hp.holds.pass hR hV hin hnow hlt hread
      refine hp.of_remaining rfl rfl rfl (List.Subset.refl _) ⟨f, fun _ => hf, hle, ?_⟩
      rw [Store.emit_disk, FsEffect.apply]
      simp only [AList.lookup_insert, htemp, Option.getD_some, Store.emit_chunkSize, hb]
  | @ended chunk rest object temp filled conn hlt hread =>
      have hin := hp.wanted _ rfl chunk (by simp)
      obtain ⟨f, -, hne, -⟩ := hp.holds.pass hR hV hin hnow hlt hread
      exact absurd rfl hne
  | refused _ _ => exact ofVersion_failed _ _ _ _
  | @filled chunk rest object temp filled hle =>
      have hin := hp.wanted _ rfl chunk (by simp)
      exact hp.of_remaining rfl rfl rfl (List.Subset.refl _) (hp.holds.complete hV hin hle)
  | install =>
      obtain ⟨b, hb, htemp⟩ := hp.holds
      refine hp.of_remaining rfl rfl rfl (List.Subset.refl _) ⟨b, hb, ?_⟩
      rw [Store.object_install, if_pos rfl, htemp]
      rfl
  | record =>
      exact hp.of_remaining (Store.recordChunk_chunkSize _ _ _ _ _) rfl rfl
        (List.subset_cons_self _ _) trivial
  | @opened chunks chunk rest data piece hpiece =>
      obtain ⟨size, m, f, hf, hleads, opened, hrange, rfl⟩ := hp.holds
      have hactive : Active a := hp.active fun _ h => by cases h
      obtain ⟨hlt, -, hsmall⟩ := hactive.spec
      have hmem : chunk ∈ chunkRange a.offset.toNat a.stop w.store.chunkSize := by
        show chunk ∈ a.range w.store.chunkSize
        rw [hrange]
        simp
      refine ⟨fun _ => hactive, (fun _ h => by cases h), size, m, f, hf, hleads.tail,
        opened ++ [chunk], ?_, ?_⟩
      · rw [hrange]
        simp
      · rw [hleads.piece (hV.small _ _ _ _ hf) hlt hsmall hmem hpiece, List.flatMap_append]
        simp [pieceOf]
  | missing _ => exact ofVersion_failed _ _ _ _
  | finished =>
      obtain ⟨size, m, f, hf, -, opened, hrange, rfl⟩ := hp.holds
      have hactive : Active a := hp.active fun _ h => by cases h
      refine ⟨fun h => absurd rfl (h _), (fun _ h => by cases h),
        fun data hdata => .inr ⟨size, m, f, hf, ?_⟩⟩
      obtain ⟨hlt, -, -⟩ := hactive.spec
      rw [List.append_nil] at hrange
      rw [← Except.ok.inj hdata, ← hrange, ← chunk_assembly f w.store.chunkSize_pos hlt,
        ReadArgs.range, chunkRange, max_eq_left w.store.chunkSize_pos]
      rfl
  | idle => exact hp

/-! ## The steps of others -/

/-- The objects of a snapshot are older than the next one. -/
lemma OfVersion.toOpen_lt {s : Store} (h : OfVersion V a s pc) {o : ℕ} (ho : o ∈ toOpen pc) :
    o < s.index.nextObject := by
  cases pc with
  | assemble chunks rest data =>
      obtain ⟨k, hk, hlookup⟩ := List.mem_filterMap.mp ho
      obtain ⟨size, m, f, -, hleads, -⟩ := h.holds
      exact (hleads k hk o hlookup).1
  | _ => cases ho

/-- A step of another task, or an operation of the store, that changes no object but its own, other
than by deleting it. -/
lemma OfVersion.frame {s s' : Store} (h : OfVersion V a s pc) (ho : Owned pc s) {mine : Option ℕ}
    (hr : Store.Respects mine s s')
    (hkeeps : ∀ o, mine ≠ some o → s'.object o = s.object o ∨ s'.object o = none)
    (hapart : ∀ o, owns pc = some o → mine ≠ some o)
    (hopen : ∀ o ∈ toOpen pc, mine ≠ some o) : OfVersion V a s' pc := by
  have hsize := hr.chunkSize
  refine ⟨h.active, fun rest hrest k hk => by rw [hsize]; exact h.wanted rest hrest k hk, ?_⟩
  have hholds := h.holds
  cases pc with
  | fill chunk rest object temp filled =>
      obtain ⟨f, hf, hle, htemp⟩ := hholds
      refine ⟨f, hf, ?_, ?_⟩
      · rw [Store.chunkLen, hsize]
        exact hle
      · rw [hsize, hr.temp temp ((ho.fill _ _ _ _ _ rfl) ▸ hapart object rfl)]
        exact htemp
  | install chunk rest object temp =>
      obtain ⟨b, hb, htemp⟩ := hholds
      refine ⟨b, by rw [hsize]; exact hb, ?_⟩
      rw [hr.temp temp ((ho.install _ _ _ _ rfl) ▸ hapart object rfl)]
      exact htemp
  | record chunk rest object =>
      obtain ⟨b, hb, hobject⟩ := hholds
      refine ⟨b, by rw [hsize]; exact hb, ?_⟩
      rw [hr.object object (hapart object rfl) (ho.free object rfl).2]
      exact hobject
  | assemble chunks rest data =>
      obtain ⟨size, m, f, hf, hleads, hrest⟩ := hholds
      refine ⟨size, m, f, hf, fun k hk o hlookup => ?_, by rw [hsize]; exact hrest⟩
      obtain ⟨hlt, hin, hobject⟩ := hleads k hk o hlookup
      refine ⟨lt_of_lt_of_le hlt hr.next, by rw [hsize]; exact hin, ?_⟩
      rcases hkeeps o (hopen o (mem_toOpen hk hlookup)) with hsame | hnone
      · rw [hsame, hsize]
        exact hobject
      · exact .inl hnone
  | _ => exact hholds

/-- A step of a read deletes objects, but changes none that it does not own. -/
lemma Steps.keeps (h : Steps R a w pc pc' w') (o : ℕ) (ho : ReadTask.owns pc ≠ some o) :
    w'.store.object o = w.store.object o ∨ w'.store.object o = none := by
  cases h with
  | install =>
      refine .inl ((Store.object_install _ _ _ _).trans (if_neg ?_))
      rintro rfl
      exact ho rfl
  | record =>
      rw [Store.object_recordChunk]
      split
      · exact .inr rfl
      · exact .inl rfl
  | _ => exact .inl rfl

/-- The objects that a read has still to open were in its snapshot before, or are recorded. -/
lemma Steps.toOpen (h : Steps R a w pc pc' w') {o : ℕ} (ho : o ∈ toOpen pc') :
    o ∈ toOpen pc ∨ ∃ key c k, w.store.Recorded key c k o := by
  cases h with
  | snapshot hmap =>
      obtain ⟨k, -, hk⟩ := List.mem_filterMap.mp ho
      unfold Store.chunkMap at hmap
      split at hmap
      · next c hc =>
          split at hmap
          · cases hmap
            exact .inr ⟨_, c, k, hc, hk⟩
          · cases hmap
      · cases hmap
  | opened _ =>
      obtain ⟨k, hk, hlookup⟩ := List.mem_filterMap.mp ho
      exact .inl (mem_toOpen (List.mem_cons_of_mem _ hk) hlookup)
  | idle => exact .inl ho
  | _ => cases ho

end ReadTask

/-! ## Any number of reads, over any number of sessions -/

/-- An operation that takes one section under the lock of the store, or none. -/
def StoreEvent.Short {ρ : Type} : StoreEvent ρ → Prop
  | .read _ _ _ _ => False
  | _ => True

/-- What can happen while reads are under way: a step of one of them, another operation of the
store, a change at the remote, or the end of the session and the start of the next one. -/
inductive Happening (ι ρ : Type)
  | move (m : Move ι {e : StoreEvent ρ // e.Short})
  | reopen (chunkSize : UInt64) (args : ι → ReadArgs)

namespace Sessions

open ReadTask

variable {ρ ι F : Type} [DecidableEq ι] (R : RemoteFilesystem ρ) (view : ρ → Tree)

/-- An operation that is not a read, or a change at the remote. -/
def change (e : {e : StoreEvent ρ // e.Short}) (w : StoreWorld ρ) : StoreWorld ρ := w.step R e.1

/-- The reads of the next session, none of which has begun, take the place of those that were
under way. -/
def step (x : Pool ι ReadTask (StoreWorld ρ)) : Happening ι ρ → Pool ι ReadTask (StoreWorld ρ)
  | .move m => x.step (ReadTask.step R) (change R) m
  | .reopen chunkSize args =>
      Readers.start args { x.shared with store := Store.new x.shared.store.disk chunkSize }

/-- The first session, on an empty directory. -/
def start (args : ι → ReadArgs) (chunkSize : UInt64) (conn : Conn ρ) :
    Pool ι ReadTask (StoreWorld ρ) := Readers.start args (StoreWorld.start chunkSize conn)

/-- The attributes are those of the file that is there, if one is. -/
def Current (attrs : FileAttributes) (node : Option RemoteNode) : Prop :=
  ∀ f m, node = some (.file f m) → attrs.size.toNat = f.length ∧ attrs.modifiedUnixSeconds = m

instance (attrs : FileAttributes) (node : Option RemoteNode) : Decidable (Current attrs node) :=
  match node with
  | some (.file f m) =>
      decidable_of_iff (attrs.size.toNat = f.length ∧ attrs.modifiedUnixSeconds = m)
        ⟨fun h f' m' heq => by cases heq; exact h, fun h => h f m rfl⟩
  | some .dir => isTrue nofun
  | none => isTrue nofun

/-- **A pass of a download loop** that asks the remote finds the file as the attributes of its read
say. -/
def AsksCurrent (x : Pool ι ReadTask (StoreWorld ρ)) : Happening ι ρ → Prop
  | .move (.task i) =>
      match (x.tasks i).pc with
      | .fill chunk _ _ _ filled =>
          filled < x.shared.store.chunkLen (x.tasks i).args.attrs chunk →
            Current (x.tasks i).args.attrs
              (view x.shared.conn.remote (x.tasks i).args.path.asStr)
      | _ => True
  | _ => True

instance (x : Pool ι ReadTask (StoreWorld ρ)) (e : Happening ι ρ) :
    Decidable (AsksCurrent view x e) := by
  unfold AsksCurrent
  split
  · split <;> infer_instance
  · exact isTrue trivial

/-- A rename keeps the name of the file that it moves. -/
def KeepsName (name : Str → F) : Happening ι ρ → Prop
  | .move (.env ⟨.rename src dst, _⟩) => name src.asStr = name dst.asStr
  | _ => True

/-- The versions of the files that a set of states shows. -/
def shown (name : Str → F) (worlds : Pool ι ReadTask (StoreWorld ρ) → Prop) : Versions :=
  fun key size m f => size.toNat = f.length ∧ ∃ x q, worlds x ∧ name q = name key ∧
    view x.shared.conn.remote q = some (.file f m)

/-- Every change gives a file a new size or modification time. -/
def NewVersions (name : Str → F) (worlds : Pool ι ReadTask (StoreWorld ρ) → Prop) : Prop :=
  ∀ key size m f f', shown view name worlds key size m f →
    shown view name worlds key size m f' → f = f'

/-- **The cache holds, and reads return, bytes of one version at a time.** -/
structure VersionPure (V : Versions) (x : Pool ι ReadTask (StoreWorld ρ)) : Prop where
  /-- The chunks of a content reference are those of the version that it is labelled with. -/
  chunks : ∀ key c, x.shared.store.content key = some c → ∃ f, V key c.size c.modified f ∧
    ∀ k o, c.chunks.lookup k = some o →
      x.shared.store.object o = some (chunkOf f c.chunkSize k)
  /-- A `Store::read` that has returned data has returned bytes of one version. -/
  read : ∀ i data, (x.tasks i).pc = .done (.ok data) → data = [] ∨
    ∃ size m f, V (x.tasks i).args.path.asStr size m f ∧
      data = slice f (x.tasks i).args.offset.toNat (x.tasks i).args.stop
  /-- An offline read returns the requested bytes of the version that is cached. -/
  offline : ∀ path offset size data, x.shared.store.readCached path offset size = .ok data →
    ∃ c f, x.shared.store.content path.asStr = some c ∧ V path.asStr c.size c.modified f ∧
      data = Store.requested f offset size

variable {R view} {V : Versions}

/-- An operation of the store keeps the chunk invariants, and leaves alone what reads under way
rely on. -/
lemma short_step {w : StoreWorld ρ} {e : StoreEvent ρ} (he : e.Short)
    (hs : w.store.Sound (Store.Pieces V)) (hy : w.store.Synced)
    (hname : ∀ src dst, e = .rename src dst →
      ∀ size m f, V src.asStr size m f → V dst.asStr size m f) :
    (w.step R e).store.Sound (Store.Pieces V) ∧ (w.step R e).store.Synced ∧
      Store.Respects none w.store (w.step R e).store ∧
      ∀ o, (w.step R e).store.object o = w.store.object o ∨
        (w.step R e).store.object o = none := by
  have hshrinks : ∀ {s' : Store}, w.store.Shrinks s' →
      ∀ o, s'.object o = w.store.object o ∨ s'.object o = none := by
    rintro s' ⟨orphans, -, hobject⟩ o
    rw [hobject]
    split
    · exact .inr rfl
    · exact .inl rfl
  cases e with
  | putAttrs path attrs =>
      exact ⟨hs.putAttrs path attrs, hy.putAttrs path attrs, hs.respects_putAttrs path attrs,
        hshrinks (Store.shrinks_putAttrs path attrs w.store)⟩
  | recordListing parent children =>
      exact ⟨hs.recordListing parent children, hy.recordListing parent children,
        hs.respects_recordListing parent children,
        hshrinks (Store.shrinks_recordListing parent children w.store)⟩
  | invalidateContent path =>
      exact ⟨hs.invalidateContent path, hy.invalidateContent path,
        hs.respects_invalidateContent path,
        hshrinks (Store.shrinks_invalidateContent path w.store)⟩
  | invalidateChildren path =>
      exact ⟨hs.invalidateChildren path, hy.invalidateChildren path,
        hs.respects_invalidateChildren path,
        hshrinks (Store.shrinks_invalidateChildren path w.store)⟩
  | remove path =>
      exact ⟨hs.remove path, hy.remove path, hs.respects_remove path,
        hshrinks (Store.shrinks_remove path w.store)⟩
  | rename src dst =>
      refine ⟨hs.rename ?_ (fun _ _ _ _ _ h => h) (fun _ _ _ _ _ _ _ _ h => h), hy.rename src dst,
        hs.respects_rename src dst, fun o => ?_⟩
      · rintro c k b - ⟨f, hf, hin, hb⟩
        exact ⟨f, hname src dst rfl _ _ _ hf, hin, hb⟩
      · rcases Store.object_rename src dst o with hsame | ⟨hnone, -⟩
        · exact .inl hsame
        · exact .inr hnone
  | read path attrs offset size => exact he.elim
  | readCached path offset size => exact ⟨hs, hy, .refl _ _, fun _ => .inl rfl⟩
  | external remote => exact ⟨hs, hy, .refl _ _, fun _ => .inl rfl⟩

/-- **The invariant** of reads that work with one version each. -/
def Working (V : Versions) : Pool ι ReadTask (StoreWorld ρ) → Prop :=
  Outline (fun w => w.store.Sound (Store.Pieces V) ∧ w.store.Synced)
    (fun _ t w => Owned t.pc w.store ∧ ReadTask.OfVersion V t.args w.store t.pc)
    (fun t u => ∀ o, owns t.pc = some o → owns u.pc ≠ some o ∧ o ∉ toOpen u.pc)

/-- A read that steps stays apart from the others: what it takes is new, and what it finds recorded
belongs to nobody. -/
lemma apart_step {t u : ReadTask} {w : StoreWorld ρ}
    (hu : Owned u.pc w.store ∧ ReadTask.OfVersion V u.args w.store u.pc)
    (htu : ∀ o, owns t.pc = some o → owns u.pc ≠ some o ∧ o ∉ toOpen u.pc)
    (hut : ∀ o, owns u.pc = some o → owns t.pc ≠ some o ∧ o ∉ toOpen t.pc) :
    (∀ o, owns (t.step R w).1.pc = some o → owns u.pc ≠ some o ∧ o ∉ toOpen u.pc) ∧
      ∀ o, owns u.pc = some o →
        owns (t.step R w).1.pc ≠ some o ∧ o ∉ toOpen (t.step R w).1.pc := by
  have hsteps := steps_next R t.args w t.pc
  have hnew : ∀ o, owns (t.step R w).1.pc = some o → owns u.pc ≠ some o ∧ o ∉ toOpen u.pc := by
    intro o ho
    rcases hsteps.owns ho with hold | rfl
    · exact htu o hold
    · exact ⟨fun hou => Nat.lt_irrefl _ (hu.1.free _ hou).1,
        fun hou => Nat.lt_irrefl _ (hu.2.toOpen_lt hou)⟩
  refine ⟨hnew, fun o hou => ⟨fun ho => (hnew o ho).1 hou, fun ho => ?_⟩⟩
  rcases hsteps.toOpen ho with hold | ⟨key, c, k, hrec⟩
  · exact (hut o hou).2 hold
  · exact (hu.1.free o hou).2 key c k hrec

section

variable {name : Str → F} {worlds : Pool ι ReadTask (StoreWorld ρ) → Prop}
  {x : Pool ι ReadTask (StoreWorld ρ)}

lemma working_change (e : {e : StoreEvent ρ // e.Short})
    (hname : KeepsName name (.move (.env e) : Happening ι ρ))
    (hx : Working (shown view name worlds) x) :
    Working (shown view name worlds) (x.step (ReadTask.step R) (change R) (.env e)) := by
  obtain ⟨e, hshort⟩ := e
  obtain ⟨hs, hy⟩ := hx.shared
  obtain ⟨hs', hy', hrespects, hobject⟩ := short_step (R := R) hshort hs hy <| by
    rintro src dst rfl size m f ⟨hlen, x', q, hx', hq, hview⟩
    exact ⟨hlen, x', q, hx', hq.trans hname, hview⟩
  refine hx.step_env ⟨hs', hy'⟩ fun i => ?_
  obtain ⟨howned, hone⟩ := hx.task i
  exact ⟨howned.frame hrespects (fun _ _ => nofun),
    hone.frame howned hrespects (fun o _ => hobject o) (fun _ _ => nofun) fun _ _ => nofun⟩

lemma working_task (hR : TruthfulReads R view) (hV : (shown view name worlds).Distinct) (i : ι)
    (hasks : AsksCurrent view x (.move (.task i))) (hworld : worlds x)
    (hx : Working (shown view name worlds) x) :
    Working (shown view name worlds) (x.step (ReadTask.step R) (change R) (.task i)) := by
  obtain ⟨hs, hy⟩ := hx.shared
  obtain ⟨howned, hone⟩ := hx.task i
  have hsteps := steps_next R (x.tasks i).args x.shared (x.tasks i).pc
  have hfinds : FindsVersion view (shown view name worlds) (x.tasks i).args x.shared
      (x.tasks i).pc := by
    intro chunk rest object temp filled hpc hlt f m hview
    simp only [AsksCurrent, hpc] at hasks
    obtain ⟨hlen, rfl⟩ := hasks hlt f m hview
    exact ⟨hlen, x, _, hworld, rfl, hview⟩
  refine hx.step_task ⟨?_, hsteps.synced hy howned⟩ ⟨hsteps.owned hs howned,
    hsteps.ofVersion hR hV hs hy hone hfinds⟩ (fun j hj => ?_) fun j hj =>
    apart_step (hx.task j) (hx.apart i j (Ne.symm hj)) (hx.apart j i hj)
  · -- what is recorded is a piece of the version that the read works with
    refine hsteps.sound hs howned fun chunk rest object b hpc hb => ?_
    rw [hpc] at hone
    obtain ⟨b', hb', hobject⟩ := hone.holds
    rw [Option.some.inj (hb.symm.trans hobject)]
    exact hb'
  · obtain ⟨hownedj, honej⟩ := hx.task j
    have happart := hx.apart i j (Ne.symm hj)
    have howns : ∀ o, owns (x.tasks j).pc = some o → owns (x.tasks i).pc ≠ some o :=
      fun o ho heq => (happart o heq).1 ho
    exact ⟨hownedj.frame (hsteps.respects hs howned) howns,
      honej.frame hownedj (hsteps.respects hs howned) hsteps.keeps howns
        fun o ho heq => (happart o heq).2 ho⟩

/-- Every step keeps the invariant. -/
lemma working_step (hR : TruthfulReads R view) (hV : (shown view name worlds).Distinct)
    (x : Pool ι ReadTask (StoreWorld ρ)) (e : Happening ι ρ)
    (he : (AsksCurrent view x e ∧ KeepsName name e) ∧ worlds x)
    (hx : Working (shown view name worlds) x) : Working (shown view name worlds) (step R x e) := by
  obtain ⟨⟨hasks, hname⟩, hworld⟩ := he
  cases e with
  | reopen chunkSize args =>
      obtain ⟨hs, hy⟩ := hx.shared
      refine ⟨hy.reopens hs chunkSize, fun i => ⟨owned_of_none (owns_start _ _) _,
        ofVersion_start (args i) _⟩, fun i j _ o ho => ?_⟩
      cases (owns_start _ _).symm.trans ho
  | move m =>
      cases m with
      | env e => exact working_change e hname hx
      | task i => exact working_task hR hV i hasks hworld hx

end

omit [DecidableEq ι] in
/-- What the invariant says of the content and of the answers. -/
lemma Working.versionPure (hV : V.Distinct) {x : Pool ι ReadTask (StoreWorld ρ)}
    (hx : Working V x) : VersionPure V x := by
  obtain ⟨hs, hy⟩ := hx.shared
  refine ⟨fun key c hc => ?_, fun i data hdone => ?_, fun path offset size data h =>
    hs.readCached_version hy hV h⟩
  · obtain ⟨f, hf, hall⟩ := hs.version hy hV hc
    exact ⟨f, hf, fun k o hk => (hall k o hk).2.2⟩
  · have hone := (hx.task i).2
    rw [hdone] at hone
    exact hone.holds data rfl

/-- **Version purity.**  Any number of reads, interleaved with each other, with the other operations
of the store, with changes at the remote and with restarts.  Where every pass of a download loop
finds the file as the attributes of its read say, and every change gives a file a new size or
modification time, the chunks of every content reference are those of the version that it is
labelled with, and every read, with the remote or offline, returns bytes of one version. -/
theorem version_pure (hR : TruthfulReads R view) (name : Str → F) (args : ι → ReadArgs)
    (chunkSize : UInt64) (conn : Conn ρ) (es : List (Happening ι ρ))
    (hversions : NewVersions view name (Visits (step R) (start args chunkSize conn) es))
    (hnames : ∀ e ∈ es, KeepsName name e)
    (hasks : AllSteps (step R) (AsksCurrent view) (start args chunkSize conn) es)
    {x : Pool ι ReadTask (StoreWorld ρ)} (hx : Visits (step R) (start args chunkSize conn) es x) :
    VersionPure (shown view name (Visits (step R) (start args chunkSize conn) es)) x := by
  set worlds := Visits (step R) (start args chunkSize conn) es with hworlds
  have hV : (shown view name worlds).Distinct := by
    refine ⟨hversions, fun _ _ _ _ h => h.1, ?_⟩
    rintro key size m f ⟨-, x', q, -, -, hview⟩
    exact hR.file_size _ q f m hview
  refine Working.versionPure hV (visits_invariant (working_step hR hV) ?_
    ((hasks.and (allSteps_of_forall hnames)).and (allSteps_visits (step R) _ es)) hx)
  refine ⟨⟨Store.sound_new_empty chunkSize, Store.synced_new_empty chunkSize⟩,
    fun i => ⟨owned_of_none (owns_start _ _) _, ofVersion_start (args i) _⟩, fun i j _ o ho => ?_⟩
  cases (owns_start _ _).symm.trans ho

/-! Reads of the file `/f`, which is replaced by another version. -/

/-- A run shows the tree that it starts with, and those that changes at the remote bring. -/
lemma visits_view (hR : HonestReads R view) {P : Tree → Prop}
    {x₀ x : Pool ι ReadTask (StoreWorld ρ)} {es : List (Happening ι ρ)}
    (hstart : P (view x₀.shared.conn.remote))
    (hes : ∀ e ∈ es, ∀ r h, e = .move (.env ⟨.external r, h⟩) → P (view r))
    (hx : Visits (step R) x₀ es x) : P (view x.shared.conn.remote) := by
  suffices hstep : ∀ (x : Pool ι ReadTask (StoreWorld ρ)) (e : Happening ι ρ),
      (∀ r h, e = .move (.env ⟨.external r, h⟩) → P (view r)) → P (view x.shared.conn.remote) →
      P (view (step R x e).shared.conn.remote) from
    visits_invariant hstep hstart (allSteps_of_forall hes) hx
  intro x e he hinv
  cases e with
  | reopen chunkSize args => exact hinv
  | move m =>
      cases m with
      | task i =>
          rw [← (steps_next R (x.tasks i).args x.shared (x.tasks i).pc).view hR] at hinv
          exact hinv
      | env e =>
          obtain ⟨e, hshort⟩ := e
          cases e with
          | external r => exact he r hshort rfl
          | read path attrs offset size => exact hshort.elim
          | _ => exact hinv

open StoreWorld in
/-- The remote has the first version of `/f`, or the second one. -/
def TwoVersions (t : Tree) : Prop := t = firstVersion.tree ∨ t = secondVersion.tree

lemma TwoVersions.file {t : Tree} (h : TwoVersions t) {q : Str} {f : Bytes} {m : Option Int}
    (hq : t q = some (.file f m)) :
    (f = [1, 2, 3, 4, 5] ∧ m = some 1) ∨ (f = [6, 7, 8, 9, 10] ∧ m = some 2) := by
  rcases h with rfl | rfl
  · exact .inl (StoreWorld.oneFile_tree hq)
  · exact .inr (StoreWorld.oneFile_tree hq)

/-- The file is replaced. -/
def replaced : Happening Unit Memory := .move (.env ⟨.external StoreWorld.secondVersion, trivial⟩)

/-- `n` steps of the read. -/
def steps (n : ℕ) : List (Happening Unit Memory) := List.replicate n (.move (.task ()))

/-- A read of the beginning of `/f`, with the attributes that the file had at time `modified`. -/
def readF (modified : Int) (size : UInt32) (_ : Unit) : ReadArgs :=
  ⟨StoreWorld.fileF, StoreWorld.attrsF 5 modified, 0, size⟩

/-- `/f` is read, replaced and read again in the next session. -/
def betweenReads : List (Happening Unit Memory) :=
  steps 10 ++ replaced :: .reopen 2 (readF 2 1) :: steps 10

/-- `/f` is replaced between the downloads of two chunks. -/
def betweenChunks : List (Happening Unit Memory) := steps 7 ++ replaced :: steps 11

/-- Nothing is cached, and a read of `/f` has been called. -/
def coldF (size : UInt32) : Pool Unit ReadTask (StoreWorld Memory) :=
  start (readF 1 size) 2 ⟨StoreWorld.firstVersion, 0, []⟩

lemma newVersions_two {x₀ : Pool Unit ReadTask (StoreWorld Memory)}
    {es : List (Happening Unit Memory)}
    (htwo : ∀ x, Visits (step Memory.filesystem) x₀ es x → TwoVersions x.shared.conn.remote.tree) :
    NewVersions Memory.tree id (Visits (step Memory.filesystem) x₀ es) := by
  rintro key size m f f' ⟨-, x, q, hx, -, hq⟩ ⟨-, x', q', hx', -, hq'⟩
  rcases (htwo x hx).file hq with ⟨rfl, hm⟩ | ⟨rfl, hm⟩ <;>
    rcases (htwo x' hx').file hq' with ⟨rfl, hm'⟩ | ⟨rfl, hm'⟩ <;> simp_all

theorem version_pure_replaced :
    VersionPure (shown Memory.tree id (Visits (step Memory.filesystem) (coldF 1) betweenReads))
      (run (step Memory.filesystem) (coldF 1) betweenReads) ∧
    ((run (step Memory.filesystem) (coldF 1) betweenReads).tasks ()).pc = .done (.ok [6]) := by
  refine ⟨version_pure (Memory.statsTree.truthful Memory.mutates.file_size) id (readF 1 1) 2
    ⟨StoreWorld.firstVersion, 0, []⟩ betweenReads (newVersions_two fun x hx => ?_) ?_ (by decide)
    ⟨betweenReads, List.prefix_rfl, rfl⟩, rfl⟩
  · refine visits_view Memory.honestReads (.inl rfl) (fun e he r h heq => ?_) hx
    subst heq
    simp only [betweenReads, steps, replaced, List.mem_append, List.mem_cons,
      List.mem_replicate] at he
    rcases he with ⟨-, he⟩ | he | he | ⟨-, he⟩ <;> cases he
    exact .inr rfl
  · intro e he
    simp only [betweenReads, steps, List.mem_append, List.mem_cons, List.mem_replicate] at he
    rcases he with ⟨-, rfl⟩ | rfl | rfl | ⟨-, rfl⟩ <;> trivial

/-- **A stitched read.**  The remote is honest and every change gives the file a new modification
time; the read returns two bytes of each version, and so does an offline read. -/
theorem stitched_read :
    NewVersions Memory.tree id (Visits (step Memory.filesystem) (coldF 4) betweenChunks) ∧
    (∀ e ∈ betweenChunks, KeepsName (id : Str → Str) e) ∧
    ((run (step Memory.filesystem) (coldF 4) betweenChunks).tasks ()).pc =
      .done (.ok [1, 2, 8, 9]) ∧
    (run (step Memory.filesystem) (coldF 4) betweenChunks).shared.store.readCached
      StoreWorld.fileF 0 4 = .ok [1, 2, 8, 9] ∧
    ¬ VersionPure (shown Memory.tree id (Visits (step Memory.filesystem) (coldF 4) betweenChunks))
      (run (step Memory.filesystem) (coldF 4) betweenChunks) := by
  have htwo : ∀ x, Visits (step Memory.filesystem) (coldF 4) betweenChunks x →
      TwoVersions x.shared.conn.remote.tree := by
    intro x hx
    refine visits_view Memory.honestReads (.inl rfl) (fun e he r h heq => ?_) hx
    subst heq
    simp only [betweenChunks, steps, replaced, List.mem_append, List.mem_cons,
      List.mem_replicate] at he
    rcases he with ⟨-, he⟩ | he | ⟨-, he⟩ <;> cases he
    exact .inr rfl
  refine ⟨newVersions_two htwo, fun e he => ?_, rfl, rfl, fun hpure => ?_⟩
  · simp only [betweenChunks, steps, List.mem_append, List.mem_cons, List.mem_replicate] at he
    rcases he with ⟨-, rfl⟩ | rfl | ⟨-, rfl⟩ <;> trivial
  · -- the bytes are a piece of neither version
    rcases hpure.read () [1, 2, 8, 9] rfl with hnil | ⟨size, m, f, ⟨-, x, q, hx, -, hq⟩, hdata⟩
    · cases hnil
    · rcases (htwo x hx).file hq with ⟨rfl, -⟩ | ⟨rfl, -⟩
      · exact absurd hdata (by decide)
      · exact absurd hdata (by decide)

end Sessions

end CacheShfs
