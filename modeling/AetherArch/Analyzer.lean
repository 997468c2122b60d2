import AetherArch.Fields
import AetherArch.Library.FloatFormat

/-! # Entropy analysis and routing

How random a chunk is, and which method its entropy and content type recommend.
-/

namespace AetherArch

/-- Shannon entropy in bits per byte, summed over the bytes in order. -/
def shannonEntropy (format : FloatFormat) (data : Bytes) : format.Carrier :=
  if data.isEmpty then 0.0
  else
    (List.range 256).foldl (fun entropy byte =>
      let count := data.count (UInt8.ofNat byte)
      if count > 0 then
        let p : format.Carrier := (count : format.Carrier) / (data.length : format.Carrier)
        entropy - p * format.log2 p
      else entropy) 0.0

namespace Analyzer

/-! ## Content types -/

/-- Whether a byte occurs in plain text. -/
def isPrintable (byte : UInt8) : Bool :=
  byte = 10 ∨ byte = 13 ∨ byte = 9 ∨ 0x20 ≤ byte ∧ byte ≤ 0x7E

/-- A length prefix and an opening brace, as a tensor file starts. -/
def looksLikeSafetensors (data : Bytes) : Bool :=
  let metaLen := Numeral.littleEndian (data.take 8)
  data.length ≥ 9 ∧ metaLen > 0 ∧ metaLen < 100000000 ∧ data[8]? = some 123

/-- Detect the content type by the first bytes. -/
def detectFromMagic (data : Bytes) : Option ContentType :=
  let startsWith (magic : Bytes) : Bool := magic.isPrefixOf data
  let sample := data.take 512
  if data.length < 4 then none
  else if startsWith [0x93, 0x4E, 0x55, 0x4D, 0x50, 0x59] then some .numericData
  else if looksLikeSafetensors data then some .numericData
  else if startsWith (asBytes "GGUF") then some .numericData
  else if startsWith (0x7F :: asBytes "ELF") then some .executable
  else if startsWith (asBytes "MZ") then some .executable
  else if startsWith [0xFF, 0xD8, 0xFF] then some .image
  else if startsWith [0x89, 0x50, 0x4E, 0x47] then some .image
  else if startsWith (asBytes "GIF8") then some .image
  else if startsWith (asBytes "RIFF") ∧ (data.drop 8).take 4 = asBytes "WEBP" then some .image
  else if startsWith (asBytes "%PDF") then some .binaryStructured
  else if startsWith [0x50, 0x4B, 0x03, 0x04] then some .binaryRandom
  else if startsWith [0x1F, 0x8B] then some .binaryRandom
  else if startsWith [0x28, 0xB5, 0x2F, 0xFD] then some .binaryRandom
  else if startsWith [0xFD, 0x37, 0x7A, 0x58, 0x5A, 0x00] then some .binaryRandom
  else if startsWith [0xCF, 0xFA, 0xED, 0xFE] ∨ startsWith [0xFE, 0xED, 0xFA, 0xCF] then
    some .executable
  else if sample.countP isPrintable * 100 / sample.length > 85 then some .text
  else none

/-- What a letter of an extension is compared as. The only letter outside ASCII whose lower case
is an ASCII letter is the Kelvin sign. -/
def lowercase (letter : Char) : Char := if letter = '\u212A' then 'k' else letter.toLower

/-- The text after the last dot, or all of it. -/
def extension (path : String) : List Char :=
  (path.toList.reverse.takeWhile (· ≠ '.')).reverse

/-- The known extensions, by the content type they stand for. -/
def knownExtensions : List (ContentType × List String) :=
  [(.numericData, ["npy", "npz", "safetensors", "gguf", "ggml", "bin", "weight", "weights", "pt",
      "pth", "ot", "tflite", "pb", "onnx"]),
    (.text, ["txt", "md", "rst", "csv", "tsv", "log", "rs", "py", "js", "ts", "c", "cpp", "h",
      "hpp", "java", "go", "rb", "php", "swift", "kt", "scala", "zig", "nim", "lua", "sh", "bash",
      "zsh", "fish", "ps1", "bat", "cmd", "json", "yaml", "yml", "toml", "xml", "html", "htm",
        "css",
      "scss", "less", "sql", "graphql", "proto", "ini", "cfg", "conf"]),
    (.image, ["jpg", "jpeg", "png", "gif", "bmp", "tiff", "tif", "webp", "ico", "svg", "avif",
      "heic", "heif"]),
    (.binaryRandom, ["zip", "gz", "bz2", "xz", "zst", "lz4", "br", "7z", "rar", "tar", "aet", "mp3",
      "mp4", "aac", "ogg", "flac", "wav", "avi", "mkv", "webm", "mov", "m4a", "m4v"]),
    (.executable, ["exe", "dll", "so", "dylib", "o", "a", "lib", "elf", "wasm"]),
    (.binaryStructured, ["pdf", "doc", "docx", "xls", "xlsx", "ppt", "pptx", "odt", "ods", "db",
      "sqlite", "sqlite3"])]

/-- Detect the content type by the extension. -/
def detectFromExtension (path : String) : ContentType :=
  let ext := String.ofList ((extension path).map lowercase)
  (knownExtensions.findSome? fun (type, known) => if ext ∈ known then some type else none).getD
    .mixed

/-- Detect the content type by the first bytes, else by the extension. -/
def detectContentType (path : String) (firstBytes : Bytes) : ContentType :=
  (detectFromMagic firstBytes).getD (detectFromExtension path)

/-! ## Routing -/

/-- Above this entropy data is near-random. -/
def HIGH_ENTROPY_THRESHOLD (format : FloatFormat) : format.Carrier := 7.5

/-- Above this entropy data is incompressible. -/
def INCOMPRESSIBLE_THRESHOLD (format : FloatFormat) : format.Carrier := 7.95

/-- Recommended compression method for a chunk. -/
inductive RecommendedMethod where
  | predictorRans
  | zstd
  | store
  deriving DecidableEq, Repr

variable {format : FloatFormat}

/-- Decide by entropy alone. -/
def recommendMethod (entropy : format.Carrier) : RecommendedMethod :=
  if INCOMPRESSIBLE_THRESHOLD format < entropy then .store
  else if HIGH_ENTROPY_THRESHOLD format < entropy then .zstd
  else .predictorRans

/-- Decide by entropy, considering the content type. -/
def recommendMethodFor (entropy : format.Carrier) : ContentType → RecommendedMethod
  | .binaryRandom => if INCOMPRESSIBLE_THRESHOLD format < entropy then .store else .zstd
  | .image => if HIGH_ENTROPY_THRESHOLD format < entropy then .store else .zstd
  | .numericData => if INCOMPRESSIBLE_THRESHOLD format < entropy then .store else .predictorRans
  | _ => recommendMethod entropy

end Analyzer

end AetherArch
