import SyncTool.Base128
import SyncTool.SyncService

set_option autoImplicit false

namespace SyncTool.SyncService

open WireFormat

variable {wire : WireFormat}

theorem ListFilesRequest.mergeFrom_empty (m : ListFilesRequest wire) :
    mergeFrom ⟨[], false, []⟩ m = m := by
  simp only [mergeFrom, merged_default, List.nil_append]

theorem FileEntry.mergeFrom_empty (m : FileEntry wire) :
    mergeFrom ⟨[], [], false, 0, 0, 0, []⟩ m = m := by
  simp only [mergeFrom, merged_default, List.nil_append]

theorem ListFilesResponse.mergeFrom_empty (m : ListFilesResponse wire) :
    mergeFrom ⟨[], [], 0, []⟩ m = m := by
  simp only [mergeFrom, merged_default, List.nil_append]

theorem GetFileMetaRequest.mergeFrom_empty (m : GetFileMetaRequest wire) :
    mergeFrom ⟨[], []⟩ m = m := by
  simp only [mergeFrom, merged_default, List.nil_append]

theorem FileMeta.mergeFrom_empty (m : FileMeta wire) :
    mergeFrom ⟨[], [], 0, 0, 0, 0, [], false, false, []⟩ m = m := by
  simp only [mergeFrom, merged_default, List.nil_append]

theorem GetFileMetaResponse.mergeFrom_empty (m : GetFileMetaResponse wire) :
    mergeFrom ⟨none, false, [], []⟩ m = m := by
  obtain ⟨info, success, error, unknown_fields⟩ := m
  cases info with
  | none => simp only [mergeFrom, merged_default, List.nil_append]
  | some info =>
      simp only [mergeFrom, merged_default, List.nil_append, Option.getD_none,
        FileMeta.mergeFrom_empty]

theorem RpcRequest.mergeFrom_empty (m : RpcRequest wire) : mergeFrom ⟨0, .none, []⟩ m = m := by
  obtain ⟨type, payload, unknown_fields⟩ := m
  cases payload with
  | none => simp only [mergeFrom, merged_default, List.nil_append]
  | list_files request =>
      simp only [mergeFrom, merged_default, List.nil_append, list_files?, Option.getD_none,
        ListFilesRequest.mergeFrom_empty]
  | get_file_meta request =>
      simp only [mergeFrom, merged_default, List.nil_append, get_file_meta?, Option.getD_none,
        GetFileMetaRequest.mergeFrom_empty]

theorem RpcResponse.mergeFrom_empty (m : RpcResponse wire) :
    mergeFrom ⟨0, false, [], .none, []⟩ m = m := by
  obtain ⟨type, success, error, payload, unknown_fields⟩ := m
  cases payload with
  | none => simp only [mergeFrom, merged_default, List.nil_append]
  | list_files response =>
      simp only [mergeFrom, merged_default, List.nil_append, list_files?, Option.getD_none,
        ListFilesResponse.mergeFrom_empty]
  | get_file_meta response =>
      simp only [mergeFrom, merged_default, List.nil_append, get_file_meta?, Option.getD_none,
        GetFileMetaResponse.mergeFrom_empty]

theorem ListFilesRequest.carries (lawful : wire.Lawful) {m : ListFilesRequest wire}
    (small : (message wire).byteSizeLong m ≤ wire.limit) : (message wire).Carries m := by
  simp only [message] at small
  apply lawful.carries_of_fields (layout wire) rfl rfl rfl
  · simp only [message, layout, List.map_cons, List.map_nil, List.sum_cons, List.sum_nil]
    omega
  · intro held
    rfl
  · exact mergeFrom_empty m
  · simp only [layout, List.mem_cons, List.not_mem_nil, or_false, forall_eq_or_imp, forall_eq]
    refine ⟨?_, ?_⟩
    · apply lawful.string_carries
      · exact ⟨rfl, rfl, Nat.le_of_ble_eq_true rfl⟩
      · exact fun _ => rfl
      · exact FieldOf.string_fits (show (directory_ wire).size m ≤ wire.limit by omega)
    · apply lawful.bool_carries
      · exact ⟨rfl, rfl, Nat.le_of_ble_eq_true rfl⟩
      · exact fun _ => rfl

theorem FileEntry.carries (lawful : wire.Lawful) {m : FileEntry wire}
    (small : (message wire).byteSizeLong m ≤ wire.limit) : (message wire).Carries m := by
  simp only [message] at small
  apply lawful.carries_of_fields (layout wire) rfl rfl rfl
  · simp only [message, layout, List.map_cons, List.map_nil, List.sum_cons, List.sum_nil]
    omega
  · intro held
    rfl
  · exact mergeFrom_empty m
  · simp only [layout, List.mem_cons, List.not_mem_nil, or_false, forall_eq_or_imp, forall_eq]
    refine ⟨?_, ?_, ?_, ?_, ?_, ?_⟩
    · apply lawful.string_carries
      · exact ⟨rfl, rfl, Nat.le_of_ble_eq_true rfl⟩
      · exact fun _ => rfl
      · exact FieldOf.string_fits (show (name_ wire).size m ≤ wire.limit by omega)
    · apply lawful.string_carries
      · exact ⟨rfl, rfl, Nat.le_of_ble_eq_true rfl⟩
      · exact fun _ => rfl
      · exact FieldOf.string_fits (show (path_ wire).size m ≤ wire.limit by omega)
    · apply lawful.bool_carries
      · exact ⟨rfl, rfl, Nat.le_of_ble_eq_true rfl⟩
      · exact fun _ => rfl
    · apply lawful.int64_carries
      · exact ⟨rfl, rfl, Nat.le_of_ble_eq_true rfl⟩
      · exact fun _ => rfl
    · apply lawful.int64_carries
      · exact ⟨rfl, rfl, Nat.le_of_ble_eq_true rfl⟩
      · exact fun _ => rfl
    · apply lawful.uint32_carries
      · exact ⟨rfl, rfl, Nat.le_of_ble_eq_true rfl⟩
      · exact fun _ => rfl

theorem ListFilesResponse.carries (lawful : wire.Lawful) {m : ListFilesResponse wire}
    (small : (message wire).byteSizeLong m ≤ wire.limit) : (message wire).Carries m := by
  simp only [message] at small
  apply lawful.carries_of_fields (layout wire) rfl rfl rfl
  · simp only [message, layout, List.map_cons, List.map_nil, List.sum_cons, List.sum_nil]
    omega
  · intro held
    rfl
  · exact mergeFrom_empty m
  · simp only [layout, List.mem_cons, List.not_mem_nil, or_false, forall_eq_or_imp, forall_eq]
    refine ⟨?_, ?_, ?_⟩
    · apply lawful.repeated_carries
      · exact ⟨rfl, rfl, Nat.le_of_ble_eq_true rfl⟩
      · exact fun _ _ => rfl
      · exact fun _ _ _ => rfl
      · exact fun _ => rfl
      · intro entry inside
        have fits : (FileEntry.message wire).byteSizeLong entry ≤ wire.limit :=
          FieldOf.repeated_fits (show (files_ wire).size m ≤ wire.limit by omega) inside
        exact ⟨FileEntry.carries lawful fits, fits⟩
    · apply lawful.string_carries
      · exact ⟨rfl, rfl, Nat.le_of_ble_eq_true rfl⟩
      · exact fun _ => rfl
      · exact FieldOf.string_fits (show (directory_ wire).size m ≤ wire.limit by omega)
    · apply lawful.int32_carries
      · exact ⟨rfl, rfl, Nat.le_of_ble_eq_true rfl⟩
      · exact fun _ => rfl

theorem GetFileMetaRequest.carries (lawful : wire.Lawful) {m : GetFileMetaRequest wire}
    (small : (message wire).byteSizeLong m ≤ wire.limit) : (message wire).Carries m := by
  simp only [message] at small
  apply lawful.carries_of_fields (layout wire) rfl rfl rfl
  · simp only [message, layout, List.map_cons, List.map_nil, List.sum_cons, List.sum_nil]
    omega
  · intro held
    rfl
  · exact mergeFrom_empty m
  · simp only [layout, List.forall_mem_singleton]
    apply lawful.string_carries
    · exact ⟨rfl, rfl, Nat.le_of_ble_eq_true rfl⟩
    · exact fun _ => rfl
    · exact FieldOf.string_fits (show (file_path_ wire).size m ≤ wire.limit by omega)

theorem FileMeta.carries (lawful : wire.Lawful) {m : FileMeta wire}
    (small : (message wire).byteSizeLong m ≤ wire.limit) : (message wire).Carries m := by
  simp only [message] at small
  apply lawful.carries_of_fields (layout wire) rfl rfl rfl
  · simp only [message, layout, List.map_cons, List.map_nil, List.sum_cons, List.sum_nil]
    omega
  · intro held
    rfl
  · exact mergeFrom_empty m
  · simp only [layout, List.mem_cons, List.not_mem_nil, or_false, forall_eq_or_imp, forall_eq]
    refine ⟨?_, ?_, ?_, ?_, ?_, ?_, ?_, ?_, ?_⟩
    · apply lawful.string_carries
      · exact ⟨rfl, rfl, Nat.le_of_ble_eq_true rfl⟩
      · exact fun _ => rfl
      · exact FieldOf.string_fits (show (name_ wire).size m ≤ wire.limit by omega)
    · apply lawful.string_carries
      · exact ⟨rfl, rfl, Nat.le_of_ble_eq_true rfl⟩
      · exact fun _ => rfl
      · exact FieldOf.string_fits (show (path_ wire).size m ≤ wire.limit by omega)
    · apply lawful.int64_carries
      · exact ⟨rfl, rfl, Nat.le_of_ble_eq_true rfl⟩
      · exact fun _ => rfl
    · apply lawful.int64_carries
      · exact ⟨rfl, rfl, Nat.le_of_ble_eq_true rfl⟩
      · exact fun _ => rfl
    · apply lawful.int64_carries
      · exact ⟨rfl, rfl, Nat.le_of_ble_eq_true rfl⟩
      · exact fun _ => rfl
    · apply lawful.uint32_carries
      · exact ⟨rfl, rfl, Nat.le_of_ble_eq_true rfl⟩
      · exact fun _ => rfl
    · apply lawful.string_carries
      · exact ⟨rfl, rfl, Nat.le_of_ble_eq_true rfl⟩
      · exact fun _ => rfl
      · exact FieldOf.string_fits (show (md5_ wire).size m ≤ wire.limit by omega)
    · apply lawful.bool_carries
      · exact ⟨rfl, rfl, Nat.le_of_ble_eq_true rfl⟩
      · exact fun _ => rfl
    · apply lawful.bool_carries
      · exact ⟨rfl, rfl, Nat.le_of_ble_eq_true rfl⟩
      · exact fun _ => rfl

theorem GetFileMetaResponse.carries (lawful : wire.Lawful) {m : GetFileMetaResponse wire}
    (small : (message wire).byteSizeLong m ≤ wire.limit) : (message wire).Carries m := by
  simp only [message] at small
  apply lawful.carries_of_fields (layout wire) rfl rfl rfl
  · simp only [message, layout, List.map_cons, List.map_nil, List.sum_cons, List.sum_nil]
    omega
  · intro held
    obtain ⟨info, success, error, unknown_fields⟩ := m
    cases info <;> rfl
  · exact mergeFrom_empty m
  · simp only [layout, List.mem_cons, List.not_mem_nil, or_false, forall_eq_or_imp, forall_eq]
    refine ⟨?_, ?_, ?_⟩
    · apply lawful.message_carries
      · exact ⟨rfl, rfl, Nat.le_of_ble_eq_true rfl⟩
      · intro info has
        have fits : (FileMeta.message wire).byteSizeLong info ≤ wire.limit :=
          FieldOf.message_fits (show (info_ wire).size m ≤ wire.limit by omega) has
        exact ⟨FileMeta.carries lawful fits, fits⟩
    · apply lawful.bool_carries
      · exact ⟨rfl, rfl, Nat.le_of_ble_eq_true rfl⟩
      · exact fun _ => rfl
    · apply lawful.string_carries
      · exact ⟨rfl, rfl, Nat.le_of_ble_eq_true rfl⟩
      · exact fun _ => rfl
      · exact FieldOf.string_fits (show (error_ wire).size m ≤ wire.limit by omega)

theorem RpcRequest.carries (lawful : wire.Lawful) {m : RpcRequest wire}
    (small : (message wire).byteSizeLong m ≤ wire.limit) : (message wire).Carries m := by
  simp only [message] at small
  apply lawful.carries_of_fields (layout wire) rfl rfl rfl
  · simp only [message, layout, List.map_cons, List.map_nil, List.sum_cons, List.sum_nil]
    omega
  · intro held
    obtain ⟨type, payload, unknown_fields⟩ := m
    cases payload <;> rfl
  · exact mergeFrom_empty m
  · simp only [layout, List.mem_cons, List.not_mem_nil, or_false, forall_eq_or_imp, forall_eq]
    refine ⟨?_, ?_, ?_⟩
    · apply lawful.enum_carries
      · exact ⟨rfl, rfl, Nat.le_of_ble_eq_true rfl⟩
      · exact fun _ => rfl
    · apply lawful.message_carries
      · exact ⟨rfl, rfl, Nat.le_of_ble_eq_true rfl⟩
      · intro request has
        have fits : (ListFilesRequest.message wire).byteSizeLong request ≤ wire.limit :=
          FieldOf.message_fits (show (list_files_ wire).size m ≤ wire.limit by omega) has
        exact ⟨ListFilesRequest.carries lawful fits, fits⟩
    · apply lawful.message_carries
      · exact ⟨rfl, rfl, Nat.le_of_ble_eq_true rfl⟩
      · intro request has
        have fits : (GetFileMetaRequest.message wire).byteSizeLong request ≤ wire.limit :=
          FieldOf.message_fits (show (get_file_meta_ wire).size m ≤ wire.limit by omega) has
        exact ⟨GetFileMetaRequest.carries lawful fits, fits⟩

theorem RpcResponse.carries (lawful : wire.Lawful) {m : RpcResponse wire}
    (small : (message wire).byteSizeLong m ≤ wire.limit) : (message wire).Carries m := by
  simp only [message] at small
  apply lawful.carries_of_fields (layout wire) rfl rfl rfl
  · simp only [message, layout, List.map_cons, List.map_nil, List.sum_cons, List.sum_nil]
    omega
  · intro held
    obtain ⟨type, success, error, payload, unknown_fields⟩ := m
    cases payload <;> rfl
  · exact mergeFrom_empty m
  · simp only [layout, List.mem_cons, List.not_mem_nil, or_false, forall_eq_or_imp, forall_eq]
    refine ⟨?_, ?_, ?_, ?_, ?_⟩
    · apply lawful.enum_carries
      · exact ⟨rfl, rfl, Nat.le_of_ble_eq_true rfl⟩
      · exact fun _ => rfl
    · apply lawful.bool_carries
      · exact ⟨rfl, rfl, Nat.le_of_ble_eq_true rfl⟩
      · exact fun _ => rfl
    · apply lawful.string_carries
      · exact ⟨rfl, rfl, Nat.le_of_ble_eq_true rfl⟩
      · exact fun _ => rfl
      · exact FieldOf.string_fits (show (error_ wire).size m ≤ wire.limit by omega)
    · apply lawful.message_carries
      · exact ⟨rfl, rfl, Nat.le_of_ble_eq_true rfl⟩
      · intro response has
        have fits : (ListFilesResponse.message wire).byteSizeLong response ≤ wire.limit :=
          FieldOf.message_fits (show (list_files_ wire).size m ≤ wire.limit by omega) has
        exact ⟨ListFilesResponse.carries lawful fits, fits⟩
    · apply lawful.message_carries
      · exact ⟨rfl, rfl, Nat.le_of_ble_eq_true rfl⟩
      · intro response has
        have fits : (GetFileMetaResponse.message wire).byteSizeLong response ≤ wire.limit :=
          FieldOf.message_fits (show (get_file_meta_ wire).size m ≤ wire.limit by omega) has
        exact ⟨GetFileMetaResponse.carries lawful fits, fits⟩

@[simp] theorem ListFilesRequest.readable_iff {m : ListFilesRequest wire} :
    (message wire).readable m = true ↔ wire.verifyUTF8 m.directory = true := by
  simp [message, layout, directory_, recursive_, FieldOf.string, FieldOf.bool,
    FieldOf.varint64, FieldOf.scalar]

@[simp] theorem FileEntry.readable_iff {m : FileEntry wire} :
    (message wire).readable m = true ↔ wire.verifyUTF8 m.name = true ∧
    wire.verifyUTF8 m.path = true := by
  simp [message, layout, name_, path_, is_directory_, size_, mtime_, mode_, FieldOf.string,
    FieldOf.bool, FieldOf.int64, FieldOf.uint32, FieldOf.varint64, FieldOf.varint32, FieldOf.scalar]

@[simp] theorem ListFilesResponse.readable_iff {m : ListFilesResponse wire} :
    (message wire).readable m = true ↔
      (∀ entry ∈ m.files, (FileEntry.message wire).readable entry = true) ∧
        wire.verifyUTF8 m.directory = true := by
  simp [message, layout, files_, directory_, total_count_, FieldOf.repeated, FieldOf.string,
    FieldOf.int32, FieldOf.varint32, FieldOf.scalar]

@[simp] theorem GetFileMetaRequest.readable_iff {m : GetFileMetaRequest wire} :
    (message wire).readable m = true ↔ wire.verifyUTF8 m.file_path = true := by
  simp [message, layout, file_path_, FieldOf.string]

@[simp] theorem FileMeta.readable_iff {m : FileMeta wire} :
    (message wire).readable m = true ↔
      wire.verifyUTF8 m.name = true ∧ wire.verifyUTF8 m.path = true ∧
      wire.verifyUTF8 m.md5 = true := by
  simp [message, layout, name_, path_, size_, mtime_, ctime_, mode_, md5_,
    is_directory_, exists_field,
    FieldOf.string, FieldOf.bool, FieldOf.int64, FieldOf.uint32, FieldOf.varint64,
      FieldOf.varint32, FieldOf.scalar]

@[simp] theorem GetFileMetaResponse.readable_iff {m : GetFileMetaResponse wire} :
    (message wire).readable m = true ↔
      (∀ info, m.info = some info → (FileMeta.message wire).readable info = true) ∧
        wire.verifyUTF8 m.error = true := by
  simp [message, layout, info_, success_, error_, FieldOf.message, FieldOf.string, FieldOf.bool,
    FieldOf.varint64, FieldOf.scalar, Option.all_eq_true]

@[simp] theorem RpcRequest.readable_iff {m : RpcRequest wire} :
    (message wire).readable m = true ↔
      (∀ request, m.list_files? = some request →
        (ListFilesRequest.message wire).readable request = true) ∧
        ∀ request, m.get_file_meta? = some request →
          (GetFileMetaRequest.message wire).readable request = true := by
  simp [message, layout, type_, list_files_, get_file_meta_, FieldOf.message, FieldOf.enum,
    FieldOf.varint64, FieldOf.scalar, Option.all_eq_true]

@[simp] theorem RpcResponse.readable_iff {m : RpcResponse wire} :
    (message wire).readable m = true ↔
      wire.verifyUTF8 m.error = true ∧
        (∀ response, m.list_files? = some response →
          (ListFilesResponse.message wire).readable response = true) ∧
        ∀ response, m.get_file_meta? = some response →
          (GetFileMetaResponse.message wire).readable response = true := by
  simp [message, layout, type_, success_, error_, list_files_, get_file_meta_,
    FieldOf.message, FieldOf.string,
    FieldOf.bool, FieldOf.enum, FieldOf.varint64, FieldOf.scalar, Option.all_eq_true]

theorem ListFilesRequest.keeps :
    (message wire).Keeps fun m => (message wire).readable m = true := by
  intro m bytes m' start parsed
  refine parse_keeps (fun m => (message wire).readable m = true) ?_ ?_ start parsed
  · intro m unknown here
    rwa [readable_iff] at here ⊢
  simp only [layout, List.mem_cons, List.not_mem_nil, or_false, forall_eq_or_imp, forall_eq]
  refine ⟨?_, ?_⟩
  · apply FieldOf.string_keeps
    intro m text here valid
    rw [readable_iff] at here ⊢
    exact valid
  · apply FieldOf.bool_keeps
    intro m value here
    rwa [readable_iff] at here ⊢

theorem FileEntry.keeps :
    (message wire).Keeps fun m => (message wire).readable m = true := by
  intro m bytes m' start parsed
  refine parse_keeps (fun m => (message wire).readable m = true) ?_ ?_ start parsed
  · intro m unknown here
    rwa [readable_iff] at here ⊢
  simp only [layout, List.mem_cons, List.not_mem_nil, or_false, forall_eq_or_imp, forall_eq]
  refine ⟨?_, ?_, ?_, ?_, ?_, ?_⟩
  · apply FieldOf.string_keeps
    intro m text here valid
    rw [readable_iff] at here ⊢
    exact ⟨valid, here.2⟩
  · apply FieldOf.string_keeps
    intro m text here valid
    rw [readable_iff] at here ⊢
    exact ⟨here.1, valid⟩
  · apply FieldOf.bool_keeps
    intro m value here
    rwa [readable_iff] at here ⊢
  · apply FieldOf.int64_keeps
    intro m value here
    rwa [readable_iff] at here ⊢
  · apply FieldOf.int64_keeps
    intro m value here
    rwa [readable_iff] at here ⊢
  · apply FieldOf.uint32_keeps
    intro m value here
    rwa [readable_iff] at here ⊢

theorem ListFilesResponse.keeps (lawful : wire.Lawful) :
    (message wire).Keeps fun m => (message wire).readable m = true := by
  intro m bytes m' start parsed
  refine parse_keeps (fun m => (message wire).readable m = true) ?_ ?_ start parsed
  · intro m unknown here
    rwa [readable_iff] at here ⊢
  simp only [layout, List.mem_cons, List.not_mem_nil, or_false, forall_eq_or_imp, forall_eq]
  refine ⟨?_, ?_, ?_⟩
  · refine FieldOf.repeated_keeps FileEntry.keeps ?_ ?_ ?_
    · exact FileEntry.readable_iff.mpr ⟨lawful.verifyUTF8_nil, lawful.verifyUTF8_nil⟩
    · intro m here
      rw [readable_iff] at here
      exact here.1
    · intro m all here valid
      rw [readable_iff] at here ⊢
      exact ⟨valid, here.2⟩
  · apply FieldOf.string_keeps
    intro m text here valid
    rw [readable_iff] at here ⊢
    exact ⟨here.1, valid⟩
  · apply FieldOf.int32_keeps
    intro m value here
    rwa [readable_iff] at here ⊢

theorem GetFileMetaRequest.keeps :
    (message wire).Keeps fun m => (message wire).readable m = true := by
  intro m bytes m' start parsed
  refine parse_keeps (fun m => (message wire).readable m = true) ?_ ?_ start parsed
  · intro m unknown here
    rwa [readable_iff] at here ⊢
  simp only [layout, List.forall_mem_singleton]
  apply FieldOf.string_keeps
  intro m text here valid
  rw [readable_iff] at here ⊢
  exact valid

theorem FileMeta.keeps :
    (message wire).Keeps fun m => (message wire).readable m = true := by
  intro m bytes m' start parsed
  refine parse_keeps (fun m => (message wire).readable m = true) ?_ ?_ start parsed
  · intro m unknown here
    rwa [readable_iff] at here ⊢
  simp only [layout, List.mem_cons, List.not_mem_nil, or_false, forall_eq_or_imp, forall_eq]
  refine ⟨?_, ?_, ?_, ?_, ?_, ?_, ?_, ?_, ?_⟩
  · apply FieldOf.string_keeps
    intro m text here valid
    rw [readable_iff] at here ⊢
    exact ⟨valid, here.2⟩
  · apply FieldOf.string_keeps
    intro m text here valid
    rw [readable_iff] at here ⊢
    exact ⟨here.1, valid, here.2.2⟩
  · apply FieldOf.int64_keeps
    intro m value here
    rwa [readable_iff] at here ⊢
  · apply FieldOf.int64_keeps
    intro m value here
    rwa [readable_iff] at here ⊢
  · apply FieldOf.int64_keeps
    intro m value here
    rwa [readable_iff] at here ⊢
  · apply FieldOf.uint32_keeps
    intro m value here
    rwa [readable_iff] at here ⊢
  · apply FieldOf.string_keeps
    intro m text here valid
    rw [readable_iff] at here ⊢
    exact ⟨here.1, here.2.1, valid⟩
  · apply FieldOf.bool_keeps
    intro m value here
    rwa [readable_iff] at here ⊢
  · apply FieldOf.bool_keeps
    intro m value here
    rwa [readable_iff] at here ⊢

theorem GetFileMetaResponse.keeps (lawful : wire.Lawful) :
    (message wire).Keeps fun m => (message wire).readable m = true := by
  intro m bytes m' start parsed
  refine parse_keeps (fun m => (message wire).readable m = true) ?_ ?_ start parsed
  · intro m unknown here
    rwa [readable_iff] at here ⊢
  simp only [layout, List.mem_cons, List.not_mem_nil, or_false, forall_eq_or_imp, forall_eq]
  refine ⟨?_, ?_, ?_⟩
  · refine FieldOf.message_keeps FileMeta.keeps ?_ ?_
    · intro m here
      rw [readable_iff] at here
      cases has : m.info with
      | none =>
          have empty := lawful.verifyUTF8_nil
          exact FileMeta.readable_iff.mpr ⟨empty, empty, empty⟩
      | some info => exact here.1 info has
    · intro m info here valid
      rw [readable_iff] at here ⊢
      refine ⟨?_, here.2⟩
      intro other same
      rwa [← Option.some.inj same]
  · apply FieldOf.bool_keeps
    intro m value here
    rwa [readable_iff] at here ⊢
  · apply FieldOf.string_keeps
    intro m text here valid
    rw [readable_iff] at here ⊢
    exact ⟨here.1, valid⟩

theorem RpcRequest.keeps (lawful : wire.Lawful) :
    (message wire).Keeps fun m => (message wire).readable m = true := by
  intro m bytes m' start parsed
  refine parse_keeps (fun m => (message wire).readable m = true) ?_ ?_ start parsed
  · intro m unknown here
    rwa [readable_iff] at here ⊢
  simp only [layout, List.mem_cons, List.not_mem_nil, or_false, forall_eq_or_imp, forall_eq]
  refine ⟨?_, ?_, ?_⟩
  · apply FieldOf.enum_keeps
    intro m value here
    rwa [readable_iff] at here ⊢
  · refine FieldOf.message_keeps ListFilesRequest.keeps ?_ ?_
    · intro m here
      rw [readable_iff] at here
      cases has : m.list_files? with
      | none => exact ListFilesRequest.readable_iff.mpr lawful.verifyUTF8_nil
      | some request => exact here.1 request has
    · intro m request here valid
      rw [readable_iff]
      constructor
      · intro other same
        rwa [← Option.some.inj same]
      · intro other same
        cases same
  · refine FieldOf.message_keeps GetFileMetaRequest.keeps ?_ ?_
    · intro m here
      rw [readable_iff] at here
      cases has : m.get_file_meta? with
      | none => exact GetFileMetaRequest.readable_iff.mpr lawful.verifyUTF8_nil
      | some request => exact here.2 request has
    · intro m request here valid
      rw [readable_iff]
      constructor
      · intro other same
        cases same
      · intro other same
        rwa [← Option.some.inj same]

theorem RpcResponse.keeps (lawful : wire.Lawful) :
    (message wire).Keeps fun m => (message wire).readable m = true := by
  intro m bytes m' start parsed
  refine parse_keeps (fun m => (message wire).readable m = true) ?_ ?_ start parsed
  · intro m unknown here
    rwa [readable_iff] at here ⊢
  simp only [layout, List.mem_cons, List.not_mem_nil, or_false, forall_eq_or_imp, forall_eq]
  refine ⟨?_, ?_, ?_, ?_, ?_⟩
  · apply FieldOf.enum_keeps
    intro m value here
    rwa [readable_iff] at here ⊢
  · apply FieldOf.bool_keeps
    intro m value here
    rwa [readable_iff] at here ⊢
  · apply FieldOf.string_keeps
    intro m text here valid
    rw [readable_iff] at here ⊢
    exact ⟨valid, here.2⟩
  · refine FieldOf.message_keeps (ListFilesResponse.keeps lawful) ?_ ?_
    · intro m here
      rw [readable_iff] at here
      cases has : m.list_files? with
      | none =>
          refine ListFilesResponse.readable_iff.mpr ⟨?_, lawful.verifyUTF8_nil⟩
          intro entry inside
          cases inside
      | some response => exact here.2.1 response has
    · intro m response here valid
      rw [readable_iff] at here ⊢
      refine ⟨here.1, ?_, ?_⟩
      · intro other same
        rwa [← Option.some.inj same]
      · intro other same
        cases same
  · refine FieldOf.message_keeps (GetFileMetaResponse.keeps lawful) ?_ ?_
    · intro m here
      rw [readable_iff] at here
      cases has : m.get_file_meta? with
      | none =>
          refine GetFileMetaResponse.readable_iff.mpr ⟨?_, lawful.verifyUTF8_nil⟩
          intro info none_there
          cases none_there
      | some response => exact here.2.2 response has
    · intro m response here valid
      rw [readable_iff] at here ⊢
      refine ⟨here.1, ?_, ?_⟩
      · intro other same
        cases same
      · intro other same
        rwa [← Option.some.inj same]

section

variable {S : Type} {kind : MessageType S} {s : S}

/-- A message is written in as many bytes as measured. They are read exactly when its texts are
UTF-8: by themselves as the message, and onto another as its merge. -/
structure RoundTrip (kind : MessageType S) (s : S) : Prop where
  written : serializeToString kind s = some (kind.internalSerialize s)
  measured : (kind.internalSerialize s).length = kind.byteSizeLong s
  read : parseFromString kind (kind.internalSerialize s) = if kind.readable s then some s else none
  merged : ∀ m, kind.internalParse m (kind.internalSerialize s) =
    if kind.readable s then some (kind.mergeFrom m s) else none

theorem round_trip_of_carries (carries : kind.Carries s) (small : kind.byteSizeLong s ≤ INT_MAX) :
    RoundTrip kind s where
  written := by rw [serializeToString, if_neg (by omega)]
  measured := carries.measured.symm
  read := by rw [parseFromString, carries.merges, carries.fresh]
  merged := carries.merges

/-- What is read has UTF-8 texts, and written again it is read again. -/
structure Accepted (wire : WireFormat) (kind : MessageType S) (s : S) : Prop where
  readable : kind.readable s = true
  again : kind.byteSizeLong s ≤ wire.limit →
    ∃ bytes, serializeToString kind s = some bytes ∧ parseFromString kind bytes = some s

theorem accepted_of_readable (readable : kind.readable s = true)
    (round_trip : kind.byteSizeLong s ≤ wire.limit → RoundTrip kind s) : Accepted wire kind s where
  readable := readable
  again := by
    intro small
    have back := round_trip small
    refine ⟨_, back.written, ?_⟩
    rw [back.read, if_pos readable]

end

/-- Requests and responses survive the connection, in whatever state the message is that they
are read onto, as long as their texts are UTF-8. A message with another text is written, and
never read. -/
theorem messages_round_trip (lawful : wire.Lawful) (bounded : wire.limit ≤ INT_MAX) :
    (∀ request, (RpcRequest.message wire).byteSizeLong request ≤ wire.limit →
      RoundTrip (RpcRequest.message wire) request) ∧
    ∀ response, (RpcResponse.message wire).byteSizeLong response ≤ wire.limit →
      RoundTrip (RpcResponse.message wire) response := by
  constructor
  · intro request small
    exact round_trip_of_carries (RpcRequest.carries lawful small) (by omega)
  · intro response small
    exact round_trip_of_carries (RpcResponse.carries lawful small) (by omega)

/-- The library's sizes leave some room. -/
abbrev narrow : WireFormat := Base128.format (INT_MAX - 16)

/-- A listing of one file, with a field that a response does not have. -/
def listingOf (name : Bytes) : RpcResponse narrow where
  type := 1
  success := true
  error := []
  payload := .list_files ⟨[⟨name, [0x61], false, -1, 5, 0o644, []⟩], [], 1, []⟩
  unknown_fields := [⟨0x38, ⟨0x38, [0x2A]⟩, by decide, [0x2A], [], rfl⟩]

/-- The name `b` is read, and the byte 0xFF is not. -/
theorem messages_round_trip_listing :
    parseFromString (RpcResponse.message narrow)
        ((RpcResponse.message narrow).internalSerialize (listingOf [0x62])) =
          some (listingOf [0x62]) ∧
      parseFromString (RpcResponse.message narrow)
        ((RpcResponse.message narrow).internalSerialize (listingOf [0xFF])) = none := by
  have lawful : narrow.Lawful := Base128.format_lawful (by decide)
  have trips := (messages_round_trip lawful (by decide)).2
  have kept := trips (listingOf [0x62]) (by decide +kernel)
  have refused := trips (listingOf [0xFF]) (by decide +kernel)
  constructor
  · rw [kept.read, if_pos (by decide +kernel)]
  · rw [refused.read, if_neg (by decide +kernel)]

/-- Whatever bytes are read, the message has UTF-8 texts, and can be sent on. -/
theorem messages_accepted (lawful : wire.Lawful) (bounded : wire.limit ≤ INT_MAX) :
    (∀ bytes request, parseFromString (RpcRequest.message wire) bytes = some request →
      Accepted wire (RpcRequest.message wire) request) ∧
    ∀ bytes response, parseFromString (RpcResponse.message wire) bytes = some response →
      Accepted wire (RpcResponse.message wire) response := by
  have round_trip := messages_round_trip lawful bounded
  constructor
  · intro bytes request parsed
    have start : (RpcRequest.message wire).readable (RpcRequest.message wire).empty = true := by
      apply RpcRequest.readable_iff.mpr
      constructor <;> intro part held <;> cases held
    exact accepted_of_readable (RpcRequest.keeps lawful _ _ _ start parsed) (round_trip.1 request)
  · intro bytes response parsed
    have start : (RpcResponse.message wire).readable (RpcResponse.message wire).empty = true := by
      apply RpcResponse.readable_iff.mpr
      refine ⟨lawful.verifyUTF8_nil, ?_, ?_⟩ <;> intro part held <;> cases held
    exact accepted_of_readable (RpcResponse.keeps lawful _ _ _ start parsed) (round_trip.2 response)

/-- A request whose tag is in two bytes, with an unknown field, and with its type twice. -/
def oddRequest : Bytes := [0x88, 0x00, 0x05, 0x38, 0x2A, 0x08, 0x01, 0x5A, 0x03, 0x0A, 0x01, 0x61]

/-- It is accepted, and the unknown field kept. -/
theorem messages_accepted_odd : ∃ request,
    parseFromString (RpcRequest.message narrow) oddRequest = some request ∧
      Accepted narrow (RpcRequest.message narrow) request ∧
      request.unknown_fields.map (fun unknown => unknown.tag) = [0x38] := by
  have tags : (parseFromString (RpcRequest.message narrow) oddRequest).map
      (fun request => request.unknown_fields.map fun unknown => unknown.tag) = some [0x38] := by
    decide +kernel
  obtain ⟨request, parsed, kept⟩ := Option.map_eq_some_iff.mp tags
  have lawful : narrow.Lawful := Base128.format_lawful (by decide)
  exact ⟨request, parsed, (messages_accepted lawful (by decide)).1 oddRequest request parsed, kept⟩

end SyncTool.SyncService
