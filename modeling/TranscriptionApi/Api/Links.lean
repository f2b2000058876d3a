import TranscriptionApi.Auth.LoginFlow
import TranscriptionApi.Lib.UrlEncoded
import TranscriptionApi.Uploads.Capability

/-!
The two links that the service makes: the one that `request_upload_url` answers
and the one that `login` redirects to. Both end in a query that `urlencode` has
made, of texts that are not the service's own: nonces and the client's
registration. Whoever opens a link splits it at the first `?`, drops a fragment
and reads the pairs, and gets the texts that went in.
-/

namespace TranscriptionApi.Api

open Auth Auth.LoginFlow Db Lib Lib.UrlEncoded Mcp Python Uploads

/-! ### `urllib.parse` -/

/-- `_ALWAYS_SAFE`. -/
def alwaysSafe : Plain where
  mem b :=
    let c := Char.ofNat b.toNat
    b.toNat < 128 && (c.isAlphanum || c = '_' || c = '.' || c = '-' || c = '~')
  ascii b hb := by
    simp only [Bool.and_eq_true, decide_eq_true_eq] at hb
    exact hb.1
  clear b hb := by
    have hall : ∀ n : Fin 128, Char.ofNat n.val ∈ reserved →
        ((Char.ofNat n.val).isAlphanum || Char.ofNat n.val = '_' || Char.ofNat n.val = '.' ||
          Char.ofNat n.val = '-' || Char.ofNat n.val = '~') = false := by decide
    intro hmem
    simp only [Bool.and_eq_true, decide_eq_true_eq] at hb
    have hnot := hall ⟨b.toNat, hb.1⟩ hmem
    rw [hnot] at hb
    exact Bool.false_ne_true hb.2

/-- `urlencode` of several parameters. -/
def urlencodeAll (params : List (String × String)) : String :=
  "&".intercalate (params.map fun p => urlencode p.1 p.2)

/-- `parse_qsl(qs, keep_blank_values=True)`; `none` if bytes are not UTF-8, for
which Python puts U+FFFD. -/
def parseQsl (qs : String) : Option (List (String × String)) :=
  (UrlEncoded.decode qs.toList).mapM fun p => do
    let name ← decodeUtf8 p.1
    let value ← decodeUtf8 p.2
    pure (String.ofList name, String.ofList value)

/-- A request for a URL: what comes before the query, and its parameters. -/
structure Opened where
  address : String
  params : List (String × String)
  deriving DecidableEq

def openUrl (url : String) : Option Opened :=
  let cs := url.toList.takeWhile (· ≠ '#')
  (parseQsl (String.ofList ((cs.dropWhile (· ≠ '?')).drop 1))).map fun params =>
    ⟨String.ofList (cs.takeWhile (· ≠ '?')), params⟩

theorem toList_eq_data (bytes : ByteArray) : bytes.toList = bytes.data.toList := by
  have hloop (n i : ℕ) (r : List UInt8) (hn : bytes.size - i = n) :
      ByteArray.toList.loop bytes i r = r.reverse ++ bytes.data.toList.drop i := by
    induction n generalizing i r with
    | zero =>
        unfold ByteArray.toList.loop
        have hsize : bytes.data.toList.length ≤ i := by
          simpa using Nat.sub_eq_zero_iff_le.mp hn
        rw [if_neg (by omega), List.drop_eq_nil_of_le hsize, List.append_nil]
    | succ n ih =>
        have hi : i < bytes.size := by omega
        unfold ByteArray.toList.loop
        rw [if_pos hi, ih (i + 1) _ (by omega), List.reverse_cons, List.append_assoc]
        congr 1
        have hi' : i < bytes.data.toList.length := by simpa using hi
        rw [List.drop_eq_getElem_cons hi']
        simp [ByteArray.get!, hi]
  exact hloop _ 0 [] rfl

theorem toUTF8_toList (s : String) : s.toUTF8.toList = encodeUtf8 s.toList := by
  rw [toList_eq_data, String.toUTF8_eq_toByteArray, ← String.utf8Encode_toList]
  exact List.toList_data_toByteArray

theorem toList_quotePlus (s : String) :
    (quotePlus s).toList = quote alwaysSafe (encodeUtf8 s.toList) := by
  have hbyte (n : Fin 256) : (let b := UInt8.ofNat n.val
      let c := Char.ofNat b.toNat
      if b.toNat < 128 ∧ (c.isAlphanum ∨ c = '_' ∨ c = '.' ∨ c = '-' ∨ c = '~') then [c]
      else if c = ' ' then ['+']
      else '%' :: (hexString 2 b.toNat).map Char.toUpper) =
        quoteByte alwaysSafe (UInt8.ofNat n.val) := by
    revert n
    decide +kernel
  rw [quotePlus, String.toList_ofList, toUTF8_toList, quote]
  congr 1
  funext b
  have hb := hbyte ⟨b.toNat, b.toNat_lt⟩
  rwa [UInt8.ofNat_toNat] at hb

theorem toList_urlencodeAll (params : List (String × String)) : (urlencodeAll params).toList =
    encode alwaysSafe (params.map fun p => (encodeUtf8 p.1.toList, encodeUtf8 p.2.toList)) := by
  rw [urlencodeAll, String.toList_intercalate, encode, List.map_map, List.map_map]
  congr 1
  refine List.map_congr_left fun p _ => ?_
  simp [urlencode, field, toList_quotePlus]

/-- What `urlencode` has written is read back. -/
theorem parseQsl_urlencodeAll (params : List (String × String)) :
    parseQsl (urlencodeAll params) = some params := by
  have hread (p : String × String) : (do
      let name ← decodeUtf8 (encodeUtf8 p.1.toList)
      let value ← decodeUtf8 (encodeUtf8 p.2.toList)
      pure (String.ofList name, String.ofList value)) = some p := by
    simp [decodeUtf8_encodeUtf8]
  have hsome : params.mapM some = some params := by
    simpa using List.mapM_pure (m := Option) (l := params) (f := id)
  rw [parseQsl, toList_urlencodeAll, decode_encode, List.mapM_map]
  simpa only [Function.comp_def, hread] using hsome

/-- A query that `urlencode` has made ends nowhere but at the end of the link. -/
theorem openUrl_link {address : String} (hquery : '?' ∉ address.toList)
    (hfragment : '#' ∉ address.toList) (params : List (String × String)) :
    openUrl (address ++ "?" ++ urlencodeAll params) = some ⟨address, params⟩ := by
  have hline : '#' ∉ (urlencodeAll params).toList := by
    rw [toList_urlencodeAll]
    exact notMem_encode (by decide) (by decide) (by decide) (by decide) (by decide) _
  have hwhole : (address ++ "?" ++ urlencodeAll params).toList.takeWhile (· ≠ '#') =
      address.toList ++ '?' :: (urlencodeAll params).toList := by
    rw [List.takeWhile_eq_self_iff.mpr]
    · simp
    · intro c hc
      rw [decide_eq_true_eq]
      rintro rfl
      simp only [String.toList_append, List.mem_append] at hc
      rcases hc with (hc | hc) | hc
      · exact hfragment hc
      · exact absurd hc (by decide)
      · exact hline hc
  have haddress : ∀ c ∈ address.toList, decide (c ≠ '?') = true := by
    intro c hc
    rw [decide_eq_true_eq]
    rintro rfl
    exact hquery hc
  unfold openUrl
  dsimp only
  rw [hwhole, List.takeWhile_append_of_pos haddress, List.dropWhile_append_of_pos haddress]
  simp [parseQsl_urlencodeAll]

/-! ### The upload link -/

/-- A public base URL: `http` or `https`, a host, and path segments of plain
characters. -/
structure BaseUrl where
  scheme : String
  authority : String
  segments : List String
  web : scheme = "http" ∨ scheme = "https"
  nonempty : authority ≠ ""
  host : ∀ c ∈ authority.toList, c.isAlphanum ∨ c ∈ ['.', '-', ':']
  plain : ∀ s ∈ segments, s ≠ "" ∧ s ≠ "." ∧ s ≠ ".." ∧
    ∀ c ∈ s.toList, c.isAlphanum ∨ c ∈ ['.', '-', '_', '~']

namespace BaseUrl

/-- The path, with a slash before each segment. -/
def path (segments : List (List Char)) : List Char := segments.flatMap ('/' :: ·)

/-- The URL, without a slash at its end. -/
def text (b : BaseUrl) : String :=
  b.scheme ++ "://" ++ b.authority ++ String.ofList (path (b.segments.map String.toList))

end BaseUrl

theorem splitOnSlash_cons {c : Char} (hc : '/' ≠ c) {s part : List Char}
    {parts : List (List Char)} (hs : splitOnSlash s = part :: parts) :
    splitOnSlash (c :: s) = (c :: part) :: parts := by
  unfold splitOnSlash at hs ⊢
  rw [List.foldr_cons, hs, if_neg (Ne.symm hc)]

theorem splitOnSlash_of_notMem {s : List Char} (hs : '/' ∉ s) : splitOnSlash s = [s] := by
  induction s with
  | nil => rfl
  | cons c s ih =>
      rw [List.mem_cons, not_or] at hs
      exact splitOnSlash_cons hs.1 (ih hs.2)

theorem splitOnSlash_append {s : List Char} (hs : '/' ∉ s) (rest : List Char) :
    splitOnSlash (s ++ '/' :: rest) = s :: splitOnSlash rest := by
  induction s with
  | nil => rfl
  | cons c s ih =>
      rw [List.mem_cons, not_or] at hs
      exact splitOnSlash_cons hs.1 (ih hs.2)

theorem path_snoc (segments : List (List Char)) :
    BaseUrl.path segments ++ ['/'] = '/' :: segments.flatMap (· ++ ['/']) := by
  induction segments with
  | nil => rfl
  | cons s segments ih =>
      have hcons : BaseUrl.path (s :: segments) = '/' :: s ++ BaseUrl.path segments := rfl
      rw [hcons, List.append_assoc, ih]
      simp

/-- A path that starts and ends with a slash is its segments between two empty
ones. -/
theorem splitOnSlash_path {segments : List (List Char)} (h : ∀ s ∈ segments, '/' ∉ s) :
    splitOnSlash (BaseUrl.path segments ++ ['/']) = [] :: (segments ++ [[]]) := by
  have hrest (segments : List (List Char)) (h : ∀ s ∈ segments, '/' ∉ s) :
      splitOnSlash (segments.flatMap (· ++ ['/'])) = segments ++ [[]] := by
    induction segments with
    | nil => rfl
    | cons s segments ih =>
        rw [List.flatMap_cons, List.append_assoc, List.singleton_append,
          splitOnSlash_append (h s List.mem_cons_self),
          ih fun s hs => h s (List.mem_cons_of_mem _ hs)]
        rfl
  rw [path_snoc, ← List.nil_append ('/' :: _), splitOnSlash_append List.not_mem_nil, hrest _ h]

theorem intercalate_path {segments : List (List Char)} (h : segments ≠ []) :
    ['/'].intercalate ([] :: segments) = BaseUrl.path segments := by
  rw [List.intercalate_cons_of_ne_nil h, List.nil_append]
  induction segments with
  | nil => exact absurd rfl h
  | cons s segments ih =>
      have hcons : BaseUrl.path (s :: segments) = '/' :: s ++ BaseUrl.path segments := rfl
      rw [hcons]
      cases segments with
      | nil => simp [BaseUrl.path]
      | cons s' segments =>
          rw [List.intercalate_cons_cons, ← ih (by simp)]
          simp

/-- Without dot segments there is nothing to resolve. -/
theorem resolveDots_eq {segments : List (List Char)}
    (h : ∀ s ∈ segments, s ≠ ['.'] ∧ s ≠ ['.', '.']) : resolveDots segments = segments := by
  have hfold (acc segments : List (List Char)) (h : ∀ s ∈ segments, s ≠ ['.'] ∧ s ≠ ['.', '.']) :
      segments.foldl (fun acc seg =>
        if seg = ['.', '.'] then acc.dropLast
        else if seg = ['.'] then acc
        else acc ++ [seg]) acc = acc ++ segments := by
    induction segments generalizing acc with
    | nil => rw [List.foldl_nil, List.append_nil]
    | cons s segments ih =>
        obtain ⟨hone, htwo⟩ := h s List.mem_cons_self
        rw [List.foldl_cons, if_neg htwo, if_neg hone,
          ih _ fun s hs => h s (List.mem_cons_of_mem _ hs), ← List.append_cons]
  unfold resolveDots
  rw [hfold [] segments h, List.nil_append]
  split
  · rename_i hlast
    exact absurd rfl (h _ (List.mem_of_getLast? hlast)).1
  · rename_i hlast
    exact absurd rfl (h _ (List.mem_of_getLast? hlast)).2
  · rfl

/-- What `urljoin` asks of the segments. -/
theorem BaseUrl.segment (b : BaseUrl) {s : List Char} (hs : s ∈ b.segments.map String.toList) :
    s ≠ [] ∧ s ≠ ['.'] ∧ s ≠ ['.', '.'] ∧ ∀ c ∈ s, c ∉ ['/', '?', '#', ';'] := by
  obtain ⟨t, ht, rfl⟩ := List.mem_map.mp hs
  obtain ⟨hne, hone, htwo, hchars⟩ := b.plain t ht
  refine ⟨fun h => hne (String.toList_inj.mp h), fun h => hone (String.toList_inj.mp h),
    fun h => htwo (String.toList_inj.mp h), fun c hc hmem => ?_⟩
  simp only [List.mem_cons, List.not_mem_nil, or_false] at hmem
  rcases hmem with rfl | rfl | rfl | rfl
  all_goals exact absurd (hchars _ hc) (by decide)

theorem BaseUrl.authority_clear (b : BaseUrl) {c : Char} (hc : c ∈ b.authority.toList) :
    c ∉ ['/', '?', '#'] := by
  intro hmem
  simp only [List.mem_cons, List.not_mem_nil, or_false] at hmem
  rcases hmem with rfl | rfl | rfl
  all_goals exact absurd (b.host _ hc) (by decide)

theorem BaseUrl.path_clear (b : BaseUrl) {c : Char}
    (hc : c ∈ path (b.segments.map String.toList)) : c ∉ ['?', '#', ';'] := by
  obtain ⟨s, hs, hcs⟩ := List.mem_flatMap.mp hc
  rcases List.mem_cons.mp hcs with rfl | hcs
  · decide
  · have hchars := (b.segment hs).2.2.2 c hcs
    exact fun hmem => hchars (List.mem_cons_of_mem _ hmem)

/-- `urljoin` of a base with a slash at its end puts the path there. -/
theorem urljoin_base (b : BaseUrl) (first last : String)
    (hfirst : '/' ∉ first.toList ∧ first.toList ≠ [] ∧ first.toList ≠ ['.'] ∧
      first.toList ≠ ['.', '.'])
    (hlast : '/' ∉ last.toList ∧ last.toList ≠ ['.'] ∧ last.toList ≠ ['.', '.']) :
    urljoin (b.text ++ "/") (first ++ "/" ++ last) = b.text ++ "/" ++ first ++ "/" ++ last := by
  have hcolon : ':' ∉ b.scheme.toList := by
    rcases b.web with h | h
    · rw [h]
      decide
    · rw [h]
      decide
  have hscheme : ∀ c ∈ b.scheme.toList, decide (c ≠ ':') = true := by
    intro c hc
    exact decide_eq_true fun h => hcolon (h ▸ hc)
  have hauthority : ∀ c ∈ b.authority.toList, decide (c ≠ '/' ∧ c ≠ '?' ∧ c ≠ '#') = true := by
    intro c hc
    have hclear := b.authority_clear hc
    simp only [List.mem_cons, List.not_mem_nil, or_false, not_or] at hclear
    exact decide_eq_true hclear
  have hsegment {s : List Char} (hs : s ∈ b.segments.map String.toList) := b.segment hs
  have hpath : ∀ c ∈ BaseUrl.path (b.segments.map String.toList) ++ ['/'],
      decide (c ≠ '?' ∧ c ≠ '#' ∧ c ≠ ';') = true := by
    intro c hc
    refine decide_eq_true ?_
    rcases List.mem_append.mp hc with hc | hc
    · have hclear := b.path_clear hc
      simpa only [List.mem_cons, List.not_mem_nil, or_false, not_or] using hclear
    · rw [List.mem_singleton.mp hc]
      decide
  have hbase : (b.text ++ "/").toList = b.scheme.toList ++ ':' :: '/' :: '/' ::
      (b.authority.toList ++ (BaseUrl.path (b.segments.map String.toList) ++ ['/'])) := by
    simp [BaseUrl.text]
  have hjoined : splitOnSlash (first ++ "/" ++ last).toList = [first.toList, last.toList] := by
    have hchars : (first ++ "/" ++ last).toList = first.toList ++ '/' :: last.toList := by simp
    rw [hchars, splitOnSlash_append hfirst.1, splitOnSlash_of_notMem hlast.1]
  generalize b.segments.map String.toList = segments at hsegment hpath hbase
  have hnetloc : (b.authority.toList ++ (BaseUrl.path segments ++ ['/'])).takeWhile
      (fun c => c ≠ '/' ∧ c ≠ '?' ∧ c ≠ '#') = b.authority.toList := by
    rw [List.takeWhile_append_of_pos hauthority, path_snoc]
    simp
  have hkept : (segments ++ [first.toList]).filter (!·.isEmpty) = segments ++ [first.toList] := by
    refine List.filter_eq_self.mpr fun s hs => ?_
    have hne : s ≠ [] := by
      rcases List.mem_append.mp hs with hs | hs
      · exact (hsegment hs).1
      · rw [List.mem_singleton.mp hs]
        exact hfirst.2.1
    simpa using hne
  have hdots : ∀ s ∈ [] :: (segments ++ [first.toList, last.toList]),
      s ≠ ['.'] ∧ s ≠ ['.', '.'] := by
    intro s hs
    simp only [List.mem_cons, List.mem_append, List.not_mem_nil, or_false] at hs
    rcases hs with rfl | hs | rfl | rfl
    · decide
    · exact ⟨(hsegment hs).2.1, (hsegment hs).2.2.1⟩
    · exact hfirst.2.2
    · exact hlast.2
  have htake : (b.text ++ "/").toList.takeWhile (· ≠ ':') = b.scheme.toList := by
    rw [hbase, List.takeWhile_append_of_pos hscheme]
    simp
  have hdrop : ((b.text ++ "/").toList.dropWhile (· ≠ ':')).drop 3 =
      b.authority.toList ++ (BaseUrl.path segments ++ ['/']) := by
    rw [hbase, List.dropWhile_append_of_pos hscheme]
    simp
  have hslashes : ∀ s ∈ segments, '/' ∉ s := fun s hs hmem =>
    (hsegment hs).2.2.2 '/' hmem (by decide)
  have hall : ([] :: (segments ++ [[]])).dropLast ++ [first.toList, last.toList] =
      [] :: (segments ++ [first.toList, last.toList]) := by
    rw [← List.cons_append, List.dropLast_concat, List.cons_append]
  have hinner : (([] :: (segments ++ [first.toList, last.toList])).drop 1).dropLast.filter
      (!·.isEmpty) = segments ++ [first.toList] := by
    rw [List.drop_one, List.tail_cons, List.append_cons, List.dropLast_concat, hkept]
  have hend : ([] :: (segments ++ [first.toList, last.toList])).drop
      (max 1 (([] :: (segments ++ [first.toList, last.toList])).length - 1)) = [last.toList] := by
    rw [List.append_cons, ← List.cons_append]
    refine List.drop_left' ?_
    simp
  have hwhole : [[]] ++ (segments ++ [first.toList]) ++ [last.toList] =
      [] :: (segments ++ [first.toList, last.toList]) := by simp
  have hend' : BaseUrl.path (segments ++ [first.toList, last.toList]) =
      BaseUrl.path segments ++ ['/'] ++ first.toList ++ '/' :: last.toList := by
    simp [BaseUrl.path]
  have hhead : BaseUrl.path segments ++ ['/'] ++ first.toList ++ '/' :: last.toList =
      '/' :: (segments.flatMap (· ++ ['/']) ++ first.toList ++ '/' :: last.toList) := by
    rw [path_snoc]
    rfl
  apply String.toList_inj.mp
  unfold urljoin
  dsimp only
  rw [htake, hdrop, hnetloc, List.drop_left, List.takeWhile_eq_self_iff.mpr hpath,
    splitOnSlash_path hslashes, hjoined, hall, hinner, hend]
  rw [show ([] :: (segments ++ [first.toList, last.toList])).take 1 = [[]] from rfl, hwhole,
    resolveDots_eq hdots, intercalate_path (by simp), hend', hhead]
  simp only [List.isEmpty_cons, Bool.false_eq_true, if_false, List.head?_cons, if_true]
  rw [← hhead, String.toList_ofList]
  simp only [String.toList_append] at hbase ⊢
  rw [hbase]
  simp

theorem endsWith_slash_iff {s : String} : s.endsWith "/" = true ↔ ['/'] <:+ s.toList := by
  rw [String.endsWith_eq_endsWith_toSlice, String.Slice.endsWith_string_iff]
  simp

theorem mem_of_suffix {c : Char} {s t : List Char} (ht : t ≠ []) (h : [c] <:+ s ++ t) : c ∈ t := by
  obtain ⟨init, last, rfl⟩ := (List.eq_nil_or_concat t).resolve_left ht
  obtain ⟨u, hu⟩ := h
  rw [List.concat_eq_append, ← List.append_assoc] at hu
  obtain ⟨-, hlast⟩ := List.append_inj' hu rfl
  rw [List.concat_eq_append, List.singleton_inj.mp hlast]
  exact List.mem_append_right _ List.mem_cons_self

theorem BaseUrl.endsWith_text (b : BaseUrl) : b.text.endsWith "/" = false := by
  rw [Bool.eq_false_iff, ne_eq, endsWith_slash_iff]
  intro hsuffix
  have hsegment {s : List Char} (hs : s ∈ b.segments.map String.toList) := b.segment hs
  have htext : b.text.toList = (b.scheme.toList ++ "://".toList ++ b.authority.toList) ++
      path (b.segments.map String.toList) := by simp [text]
  rw [htext] at hsuffix
  generalize b.segments.map String.toList = segments at hsegment hsuffix
  rcases List.eq_nil_or_concat segments with rfl | ⟨init, last, rfl⟩
  · rw [path, List.flatMap_nil, List.append_nil] at hsuffix
    have hmem := mem_of_suffix (fun h => b.nonempty (String.toList_inj.mp h)) hsuffix
    exact b.authority_clear hmem (by decide)
  · have hlast : last ∈ init.concat last := by simp
    have hpath : path (init.concat last) = path init ++ ['/'] ++ last := by simp [path]
    rw [hpath, ← List.append_assoc] at hsuffix
    exact (hsegment hlast).2.2.2 '/' (mem_of_suffix (hsegment hlast).1 hsuffix) (by decide)

/-- The endpoint that takes the uploads of a kind. -/
def endpoint : UploadKind → String
  | .audio => "/api/upload"
  | .image => "/api/upload-image"

/-- The link of a session, for a base URL with or without a slash at its end. -/
theorem uploadUrl_eq {settings : Settings} {b : BaseUrl}
    (hbase : settings.publicBaseUrl = b.text ∨ settings.publicBaseUrl = b.text ++ "/")
    (kind : UploadKind) (nonce : String) :
    uploadUrl settings kind.text nonce =
      b.text ++ endpoint kind ++ "?" ++ urlencodeAll [("session", nonce)] := by
  have hslash : (b.text ++ "/").endsWith "/" = true := by
    rw [endsWith_slash_iff, String.toList_append]
    exact List.suffix_append ..
  have hwith : (if settings.publicBaseUrl.endsWith "/" then settings.publicBaseUrl
      else settings.publicBaseUrl ++ "/") = b.text ++ "/" := by
    rcases hbase with h | h
    · rw [h, b.endsWith_text]
      rfl
    · rw [h, hslash]
      rfl
  have hquery : urlencodeAll [("session", nonce)] = urlencode "session" nonce := rfl
  unfold uploadUrl
  dsimp only
  rw [hwith, hquery]
  cases kind with
  | audio =>
      have hpath : (if UploadKind.audio.text = "audio" then "api/upload" else "api/upload-image") =
          "api" ++ "/" ++ "upload" := rfl
      have hend : "/" ++ ("api" ++ ("/" ++ "upload")) = endpoint .audio := rfl
      rw [hpath, urljoin_base b "api" "upload" (by decide) (by decide)]
      simp only [String.append_assoc, ← hend]
  | image =>
      have hpath : (if UploadKind.image.text = "audio" then "api/upload" else "api/upload-image") =
          "api" ++ "/" ++ "upload-image" := rfl
      have hend : "/" ++ ("api" ++ ("/" ++ "upload-image")) = endpoint .image := rfl
      rw [hpath, urljoin_base b "api" "upload-image" (by decide) (by decide)]
      simp only [String.append_assoc, ← hend]

theorem endpoint_clear (kind : UploadKind) {c : Char} (hc : c ∈ (endpoint kind).toList) :
    c ≠ '?' ∧ c ≠ '#' := by
  constructor
  · rintro rfl
    cases kind with
    | _ => exact absurd hc (by decide)
  · rintro rfl
    cases kind with
    | _ => exact absurd hc (by decide)

theorem BaseUrl.scheme_clear (b : BaseUrl) {c : Char} (hc : c ∈ b.scheme.toList ++ "://".toList) :
    c ≠ '?' ∧ c ≠ '#' := by
  constructor
  · rintro rfl
    rcases b.web with h | h
    all_goals exact absurd (h ▸ hc) (by decide)
  · rintro rfl
    rcases b.web with h | h
    all_goals exact absurd (h ▸ hc) (by decide)

theorem BaseUrl.text_clear (b : BaseUrl) (kind : UploadKind) {c : Char}
    (hc : c ∈ (b.text ++ endpoint kind).toList) : c ≠ '?' ∧ c ≠ '#' := by
  have htext : (b.text ++ endpoint kind).toList = b.scheme.toList ++ "://".toList ++
      (b.authority.toList ++ path (b.segments.map String.toList)) ++ (endpoint kind).toList := by
    simp [text]
  rw [htext, List.mem_append, List.mem_append] at hc
  rcases hc with (hc | hc) | hc
  · exact b.scheme_clear hc
  · rcases List.mem_append.mp hc with hc | hc
    · have hclear := b.authority_clear hc
      simp only [List.mem_cons, List.not_mem_nil, or_false, not_or] at hclear
      exact hclear.2
    · have hclear := b.path_clear hc
      simp only [List.mem_cons, List.not_mem_nil, or_false, not_or] at hclear
      exact ⟨hclear.1, hclear.2.1⟩
  · exact endpoint_clear kind hc

/-! ### The sign-in link -/

/-- The registration of the service with Microsoft Entra. -/
structure Registration where
  msTenantId : String
  msClientId : String
  msRedirectUri : String

/-- `build_authorize_url`. -/
def buildAuthorizeUrl (r : Registration) (state codeChallenge : String) : String :=
  "https://login.microsoftonline.com/" ++ r.msTenantId ++ "/oauth2/v2.0/authorize" ++ "?" ++
    urlencodeAll
      [("client_id", r.msClientId), ("response_type", "code"), ("redirect_uri", r.msRedirectUri),
        ("scope", "openid profile email User.Read"), ("state", state),
        ("code_challenge", codeChallenge), ("code_challenge_method", "S256")]

/-- The link of `login`, for the state and the bytes that it draws. -/
def loginUrl (r : Registration) (sha256 : Bytes → Bytes) (state : String) (draw : Bytes) :
    String :=
  buildAuthorizeUrl r state (generatePkce sha256 draw).2

/-- What the links are good for. -/
structure LinksReadBack (settings : Settings) (b : BaseUrl) (r : Registration) : Prop where
  /-- The link of an answered call leads to the endpoint of the session's kind,
  with its nonce. -/
  upload : ∀ (sha256Hex : Bytes → String) (now : ℤ) (secrets : UploadSecrets)
    (userId bearerId : Uuid) (kind : String) (size : ℤ) (mime tid : Option String)
    (db : Database) (grant : UploadUrl),
    (requestUploadUrl settings sha256Hex now secrets userId bearerId kind size mime tid db).1 =
      .ok grant →
    ∃ row ∈ (requestUploadUrl settings sha256Hex now secrets userId bearerId kind size mime tid
        db).2.uploadSessions.rows,
      grant.uploadId = uuidStr row.id ∧ row.kind.text = kind ∧
      openUrl grant.uploadUrl = some ⟨b.text ++ endpoint row.kind, [("session", row.nonce)]⟩
  /-- The provider gets the registration, the state of the cookie and the
  challenge of its verifier. -/
  signIn : ∀ {σ : Type} (sha256 : Bytes → Bytes) (s : LoginFlow.World σ) (client : ℕ)
    (state : String) (draw : Bytes),
    ∃ cookie, (LoginFlow.login sha256 s client none state draw).stateCookies =
        s.stateCookies ++ [(client, cookie)] ∧
      openUrl (loginUrl r sha256 state draw) = some
        ⟨"https://login.microsoftonline.com/" ++ r.msTenantId ++ "/oauth2/v2.0/authorize",
          [("client_id", r.msClientId), ("response_type", "code"),
            ("redirect_uri", r.msRedirectUri), ("scope", "openid profile email User.Read"),
            ("state", cookie.state), ("code_challenge", s256 sha256 cookie.codeVerifier),
            ("code_challenge_method", "S256")]⟩

/-- Both links read back, whatever texts go into their queries. -/
theorem linksReadBack {settings : Settings} {b : BaseUrl} {r : Registration}
    (hbase : settings.publicBaseUrl = b.text ∨ settings.publicBaseUrl = b.text ++ "/")
    (htenant : '?' ∉ r.msTenantId.toList ∧ '#' ∉ r.msTenantId.toList) :
    LinksReadBack settings b r := by
  refine ⟨?_, ?_⟩
  · intro sha256Hex now secrets userId bearerId kind size mime tid db grant hgrant
    obtain ⟨uploadKind, hash, bound, t, rfl, -, rfl, hinsert, heffect⟩ :=
      requestUploadUrl_ok hgrant
    rw [heffect]
    refine ⟨uploadSessionRow settings now userId bearerId secrets hash uploadKind bound size mime,
      ?_, rfl, rfl, ?_⟩
    · show _ ∈ t.rows
      rw [(insertUploadSession_eq_some hinsert).1]
      exact List.mem_append_right _ List.mem_cons_self
    · show openUrl (uploadUrl settings uploadKind.text secrets.nonce) = _
      rw [uploadUrl_eq hbase]
      exact openUrl_link (fun hc => (b.text_clear uploadKind hc).1 rfl)
        (fun hc => (b.text_clear uploadKind hc).2 rfl) _
  · intro σ sha256 s client state draw
    refine ⟨⟨state, (generatePkce sha256 draw).1, wholeSeconds s.now⟩, rfl, ?_⟩
    have hclear {c : Char} (hc : c ∉ r.msTenantId.toList)
        (hurl : c ∉ "https://login.microsoftonline.com/".toList)
        (hpath : c ∉ "/oauth2/v2.0/authorize".toList) :
        c ∉ ("https://login.microsoftonline.com/" ++ r.msTenantId ++
          "/oauth2/v2.0/authorize").toList := by
      simp only [String.toList_append, List.mem_append, not_or]
      exact ⟨⟨hurl, hc⟩, hpath⟩
    exact openUrl_link (hclear htenant.1 (by decide) (by decide))
      (hclear htenant.2 (by decide) (by decide)) _

/-- A service behind a proxy, under a path of its own. -/
def proxied : BaseUrl where
  scheme := "https"
  authority := "proxy.local:8443"
  segments := ["apps", "minutes"]
  web := .inr rfl
  nonempty := by decide
  host := by simp
  plain := by simp

theorem linksReadBack_proxied :
    LinksReadBack { (default : Settings) with publicBaseUrl := proxied.text ++ "/" } proxied
      ⟨"common", "client 1", "https://proxy.local:8443/apps/minutes/auth/callback?from=login"⟩ :=
  linksReadBack (.inr rfl) (by decide)

end TranscriptionApi.Api
