import AsmCacheInject.Engine.Setup

namespace AsmCacheInject.Engine

open AsmCacheInject.Data.Word

/-! The sizes of a configuration.  `validate`, `MemoryPool::new` and
`AlignedBuffer::new` each check the same product, which is formed without an
overflow check before any of them sees it. -/

namespace CacheConfig

theorem validate_eq_ok_iff (config : CacheConfig) :
    config.validate = .ok () ↔
      config.devicePath ≠ "" ∧ config.cacheSizeMb ≠ 0 ∧
        (config.blockSize ≠ 0 ∧ config.blockSize % pageAlignment = 0) ∧
        config.cacheSizeBytes % config.blockSize = 0 ∧
        config.dirtyWatermark.inUnitInterval = true ∧
        config.flushIntervalSecs ≠ 0 := by
  constructor
  · intro hvalid
    unfold validate at hvalid
    split_ifs at hvalid with hpath hmb hblock hmultiple hwatermark hinterval
    obtain ⟨hnonzero, hpages⟩ := not_or.mp hblock
    exact ⟨hpath, hmb, ⟨hnonzero, not_not.mp hpages⟩, not_not.mp hmultiple,
      hwatermark, hinterval⟩
  · rintro ⟨hpath, hmb, ⟨hnonzero, hpages⟩, hmultiple, hwatermark, hinterval⟩
    simp [validate, hpath, hmb, hnonzero, hpages, hmultiple, hwatermark,
      hinterval]

theorem toNat_cacheSizeBytes (config : CacheConfig) :
    config.cacheSizeBytes.toNat = config.cacheSizeMb.toNat * 2 ^ 20 % 2 ^ 64 := by
  simp only [cacheSizeBytes, UInt64.toNat_mul, Nat.mod_mul_mod, Nat.mul_assoc]
  rfl

theorem toNat_cacheSizeBytes_eq_iff (config : CacheConfig) :
    config.cacheSizeBytes.toNat = config.cacheSizeMb.toNat * 2 ^ 20 ↔
      config.cacheSizeMb.toNat < 2 ^ 44 := by
  rw [toNat_cacheSizeBytes]
  constructor
  · intro hexact
    have hbound := Nat.mod_lt (config.cacheSizeMb.toNat * 2 ^ 20)
      (show 2 ^ 64 > 0 by decide)
    omega
  · intro hsmall
    apply Nat.mod_eq_of_lt
    omega

end CacheConfig

theorem alignedBufferNew_of_pages {size : UInt64} (hsize : size ≠ 0)
    (hpages : size % pageAlignment = 0) (allocated : Bool) :
    alignedBufferNew allocated size = .ok () ∨
      alignedBufferNew allocated size = .error (.allocation
        "invalid layout: invalid parameters to Layout::from_size_align") ∨
      alignedBufferNew allocated size = .error (.allocation
        ("allocator returned null for " ++ toString size ++ " bytes @ " ++
          toString pageAlignment ++ "-byte alignment")) := by
  unfold alignedBufferNew
  rw [if_neg hsize, if_neg (not_not.mpr hpages)]
  split
  · exact Or.inr (Or.inl rfl)
  · split
    · exact Or.inr (Or.inr rfl)
    · exact Or.inl rfl

/-- What the layers below rely on when they take over a validated
configuration. -/
structure CacheConfig.Sized (config : CacheConfig) : Prop where
  bytes_exact : config.cacheSizeBytes.toNat = config.cacheSizeMb.toNat * 2 ^ 20
  pool_accepts : ∀ allocated message,
    memoryPoolNew allocated config.cacheSizeBytes config.blockSize ≠
      .error (.config message)
  buffer_accepts : ∀ allocated,
    alignedBufferNew allocated config.cacheSizeBytes = .ok () ∨
      alignedBufferNew allocated config.cacheSizeBytes = .error (.allocation
        "invalid layout: invalid parameters to Layout::from_size_align") ∨
      alignedBufferNew allocated config.cacheSizeBytes = .error (.allocation
        ("allocator returned null for " ++ toString config.cacheSizeBytes ++
          " bytes @ " ++ toString pageAlignment ++ "-byte alignment"))
  pool_shape : ∀ allocated pool,
    memoryPoolNew allocated config.cacheSizeBytes config.blockSize = .ok pool →
      pool.capacity = config.blockCount.toNat ∧ 1 ≤ pool.capacity ∧
        pool.capacity * config.blockSize.toNat =
          config.cacheSizeMb.toNat * 2 ^ 20

theorem alignedBufferNew_ne_config (allocated : Bool) (size : UInt64)
    (message : String) :
    alignedBufferNew allocated size ≠ .error (.config message) := by
  unfold alignedBufferNew
  split_ifs <;> simp

theorem memoryPoolNew_ne_config {totalSize blockSize : UInt64}
    (hblock : blockSize ≠ 0 ∧ blockSize % pageAlignment = 0)
    (htotal : totalSize ≠ 0 ∧ totalSize % blockSize = 0) (allocated : Bool)
    (message : String) :
    memoryPoolNew allocated totalSize blockSize ≠ .error (.config message) := by
  unfold memoryPoolNew
  split
  · next hbad => simp [hblock] at hbad
  · split
    · next hbad => simp [htotal] at hbad
    · split
      · next error herror =>
        intro heq
        cases heq
        exact alignedBufferNew_ne_config _ _ message herror
      · simp

theorem CacheConfig.sized_iff (config : CacheConfig) (hvalid : config.validate = .ok ()) :
    config.Sized ↔ config.cacheSizeMb.toNat < 2 ^ 44 := by
  constructor
  · intro hsized
    exact config.toNat_cacheSizeBytes_eq_iff.mp hsized.bytes_exact
  · intro hsmall
    obtain ⟨_, hmb, hblock, hmultiple, _, _⟩ :=
      config.validate_eq_ok_iff.mp hvalid
    have hexact := config.toNat_cacheSizeBytes_eq_iff.mpr hsmall
    have hpositive : config.cacheSizeBytes ≠ 0 := by
      intro hzero
      have hbytes := congrArg UInt64.toNat hzero
      have hmbPos := toNat_pos_of_ne_zero hmb
      rw [hexact] at hbytes
      have : (0 : UInt64).toNat = 0 := rfl
      omega
    have hpages : config.cacheSizeBytes % pageAlignment = 0 :=
      mod_eq_zero_of_toNat_dvd ((toNat_dvd_of_mod_eq_zero hblock.2).trans
        (toNat_dvd_of_mod_eq_zero hmultiple))
    refine ⟨hexact, ?_, alignedBufferNew_of_pages hpositive hpages, ?_⟩
    · exact memoryPoolNew_ne_config hblock ⟨hpositive, hmultiple⟩
    · intro allocated pool hpool
      obtain ⟨hsize, hcapacity, hproduct, _⟩ := memoryPoolNew_ok hpool
      refine ⟨?_, pool.capacity_pos, ?_⟩
      · rw [hcapacity, CacheConfig.blockCount, UInt64.toNat_div]
      · rw [← hsize, hproduct, hexact]

theorem cacheEngineNew_of_valid {config : CacheConfig} {allocated : Bool}
    (hvalid : config.validate = .ok ())
    (hbuffer : alignedBufferNew allocated config.cacheSizeBytes = .ok ())
    (totalBytes : UInt64) :
    ∃ setup, cacheEngineNew allocated (.ok totalBytes) config = .ok setup ∧
      setup.blockSize = config.blockSize.toNat ∧
      setup.totalBytes = totalBytes.toNat ∧ setup.readOnly = config.readOnly := by
  obtain ⟨_, _, hblock, hmultiple, _, _⟩ := config.validate_eq_ok_iff.mp hvalid
  have hpositive : config.cacheSizeBytes ≠ 0 := by
    intro hzero
    simp [alignedBufferNew, hzero] at hbuffer
  cases hpool : memoryPoolNew allocated config.cacheSizeBytes
      config.blockSize with
  | error error =>
      unfold memoryPoolNew at hpool
      simp only [hblock, hpositive, hmultiple, hbuffer] at hpool
      simp at hpool
  | ok pool =>
      refine ⟨_, by rw [cacheEngineNew, hvalid, hpool]; rfl, ?_, rfl, rfl⟩
      exact (memoryPoolNew_ok hpool).1

theorem default_sized :
    (CacheConfig.new "/dev/sda").validate = .ok () ∧
      (CacheConfig.new "/dev/sda").Sized :=
  ⟨rfl, (CacheConfig.sized_iff (CacheConfig.new "/dev/sda") rfl).mpr
    (by decide)⟩

/-- One mebibyte more than the address space holds: the product wraps to a
single mebibyte, which every check accepts. -/
theorem wrapped_size_validates :
    ¬∀ config : CacheConfig, config.validate = .ok () → config.Sized := by
  intro halways
  have hsized := halways
    { CacheConfig.new "/dev/sda" with cacheSizeMb := 17592186044417 } rfl
  exact absurd hsized.bytes_exact (by decide)

end AsmCacheInject.Engine
