/-!
How many places a list of references takes up. Storage comes in blocks of fixed sizes, given here in
bytes, and above them in whole pages. The places between the end of a list and the end of its block
exist and are empty.
-/
namespace TileLower.Storage

def wordSize : Nat := 8

def headerLimit : Nat := 512

def pageSize : Nat := 8192

def blockSizes : List Nat :=
  [8, 16, 24, 32, 48, 64, 80, 96, 112, 128, 144, 160, 176, 192, 208, 224, 240, 256, 288, 320, 352,
    384, 416, 448, 480, 512, 576, 640, 704, 768, 896, 1024, 1152, 1280, 1408, 1536, 1792, 2048,
    2304, 2688, 3072, 3200, 3456, 4096, 4864, 5120, 5376, 6144, 6528, 6784, 6912, 8192, 9472, 9728,
    10240, 10880, 12288, 13568, 14336, 16384, 18432, 19072, 20480, 21760, 24576, 27264, 28672,
    32768]

def roomFor (size : Nat) : Nat :=
  let header := if size ≤ headerLimit then 0 else wordSize
  if size = 0 then 0
  else match blockSizes.find? fun block => size + header ≤ block with
    | some block => block - header
    | none => (size + pageSize - 1) / pageSize * pageSize

def places (length : Nat) : Nat := roomFor (wordSize * length) / wordSize

end TileLower.Storage
