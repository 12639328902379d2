import EfiLoader.Zstd.Blocks

/-!
# EfiLoader.Host

What the sessions of this project run with: an allocator that grants up to 64 MiB at
a time, and the decoder that reads zstd frames block by block.
-/

namespace EfiLoader.Host

instance : Allocator := .upTo (64 * 1024 * 1024) (by decide)

instance : Zstd.Decoder := Zstd.Blocks.decoder

end EfiLoader.Host
