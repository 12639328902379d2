import EfiLoader.Bench.Basic
import EfiLoader.Bench.Session
import EfiLoader.Buffer
import EfiLoader.Bytes
import EfiLoader.Console
import EfiLoader.FilePath
import EfiLoader.Firmware.Basic
import EfiLoader.Firmware.DevicePath
import EfiLoader.Firmware.HandleDatabase
import EfiLoader.Firmware.ImageRecord
import EfiLoader.Firmware.LoadFile
import EfiLoader.Firmware.Memory
import EfiLoader.Firmware.Objects
import EfiLoader.Firmware.PageMap
import EfiLoader.Firmware.Protocol
import EfiLoader.Firmware.Shared
import EfiLoader.Hash.Fnv
import EfiLoader.Hash.Xxh32
import EfiLoader.Hash.Xxh64
import EfiLoader.Identity
import EfiLoader.Input
import EfiLoader.Loader.Basic
import EfiLoader.Loader.Boot
import EfiLoader.Loader.Image
import EfiLoader.Loader.Initrd
import EfiLoader.Loader.Pages
import EfiLoader.Loader.Sections
import EfiLoader.Log
import EfiLoader.Log.Target
import EfiLoader.Lz4.Block
import EfiLoader.Lz4.Descriptor
import EfiLoader.Lz4.Error
import EfiLoader.Lz4.Frame
import EfiLoader.Main
import EfiLoader.Options
import EfiLoader.Paging
import EfiLoader.Payload
import EfiLoader.Pe.Builder
import EfiLoader.Pe.Embedded
import EfiLoader.Pe.Fixup
import EfiLoader.Pe.Headers
import EfiLoader.Pe.Layout
import EfiLoader.Pe.Placement
import EfiLoader.Pe.Range
import EfiLoader.Pe.Section
import EfiLoader.Pool
import EfiLoader.Pool.Trial
import EfiLoader.Proofs.Bench.Books
import EfiLoader.Proofs.Bench.Boot
import EfiLoader.Proofs.Bench.Custody
import EfiLoader.Proofs.Bench.Described
import EfiLoader.Proofs.Bench.Handles
import EfiLoader.Proofs.Bench.Loading
import EfiLoader.Proofs.Bench.Services
import EfiLoader.Proofs.Bench.Sound
import EfiLoader.Proofs.Bench.Transfers
import EfiLoader.Proofs.Bench.Unload
import EfiLoader.Proofs.Buffer
import EfiLoader.Proofs.Bytes
import EfiLoader.Proofs.Except
import EfiLoader.Proofs.Firmware.Holdings
import EfiLoader.Proofs.Firmware.LoadFile
import EfiLoader.Proofs.Firmware.Memory
import EfiLoader.Proofs.Guarded
import EfiLoader.Proofs.Hash.Xxh32
import EfiLoader.Proofs.Input
import EfiLoader.Proofs.Loader.Ends
import EfiLoader.Proofs.Loader.Ensures
import EfiLoader.Proofs.Loader.Execution
import EfiLoader.Proofs.Loader.Guarded
import EfiLoader.Proofs.Loader.Image
import EfiLoader.Proofs.Loader.Initrd
import EfiLoader.Proofs.Loader.Journal
import EfiLoader.Proofs.Loader.Pages
import EfiLoader.Proofs.Loader.PathOf
import EfiLoader.Proofs.Loader.Sections
import EfiLoader.Proofs.Loader.Started
import EfiLoader.Proofs.Loader.Watched
import EfiLoader.Proofs.Lockstep
import EfiLoader.Proofs.Lockstep.Boot
import EfiLoader.Proofs.Lockstep.Loader
import EfiLoader.Proofs.Lockstep.Payload
import EfiLoader.Proofs.Lockstep.Reader
import EfiLoader.Proofs.Lz4.Block
import EfiLoader.Proofs.Lz4.Decode
import EfiLoader.Proofs.Lz4.Descriptor
import EfiLoader.Proofs.Lz4.Frame
import EfiLoader.Proofs.Lz4.Grammar
import EfiLoader.Proofs.Lz4.Sequences
import EfiLoader.Proofs.Payload
import EfiLoader.Proofs.Pe.Fixup
import EfiLoader.Proofs.Pe.Grammar
import EfiLoader.Proofs.Pe.Guarded.Fixup
import EfiLoader.Proofs.Pe.Guarded.Headers
import EfiLoader.Proofs.Pe.Guarded.Placement
import EfiLoader.Proofs.Pe.Headers
import EfiLoader.Proofs.Pe.Placement
import EfiLoader.Proofs.Pe.Smallest
import EfiLoader.Proofs.Reader
import EfiLoader.Proofs.Simulation.Handles
import EfiLoader.Proofs.Source
import EfiLoader.Proofs.Uefi.Exact
import EfiLoader.Proofs.Uefi.Failures
import EfiLoader.Proofs.Uefi.Interfaces
import EfiLoader.Proofs.Zstd.Frame
import EfiLoader.Simulation.Script
import EfiLoader.Simulation.Session
import EfiLoader.Simulation.Stage
import EfiLoader.Source
import EfiLoader.Status
import EfiLoader.Text.Hex
import EfiLoader.Text.Utf16
import EfiLoader.Text.Words
import EfiLoader.Uefi.File
import EfiLoader.Uefi.Firmware
import EfiLoader.Uefi.Services
import EfiLoader.Zstd.Bits
import EfiLoader.Zstd.Block
import EfiLoader.Zstd.Blocks
import EfiLoader.Zstd.Decoding
import EfiLoader.Zstd.Frame
import EfiLoader.Zstd.Fse
import EfiLoader.Zstd.Header
import EfiLoader.Zstd.Huffman
import EfiLoader.Zstd.Literals
import EfiLoader.Zstd.Sequences
import EfiLoader.Proofs.Pe.Overlay
import EfiLoader.Proofs.Pe.RelocationTable
import EfiLoader.Proofs.Pe.Rebase
import EfiLoader.Proofs.Consumption
import EfiLoader.Proofs.Lz4.Header
import EfiLoader.Proofs.Zstd.Header
import EfiLoader.Proofs.Lz4.Truncation
import EfiLoader.Proofs.Conservation
import EfiLoader.Proofs.Zstd.Stream
import EfiLoader.Proofs.Zstd.Grammar
import EfiLoader.Proofs.Zstd.Decoding
import EfiLoader.Proofs.Zstd.Blocks
import EfiLoader.Proofs.Zstd.Decoder
import EfiLoader.Proofs.Zstd.Decode
import EfiLoader.Proofs.Lz4.Window
import EfiLoader.Proofs.Pe.Extent
import EfiLoader.Proofs.Loader.Allocation
import EfiLoader.Proofs.Options
import EfiLoader.Proofs.Options.CommandLine
import EfiLoader.Proofs.Options.Invalid
import EfiLoader.Proofs.Bytes.Stands
import EfiLoader.Proofs.Pe.Builder.Layout
import EfiLoader.Proofs.Pe.Builder.File
import EfiLoader.Proofs.Pe.Builder.Headers
import EfiLoader.Proofs.Pe.Builder.Mapped
import EfiLoader.Proofs.Loader.Mapped
import EfiLoader.Proofs.Pe.Embedded
import EfiLoader.Proofs.Payload.Image
import EfiLoader.Proofs.Options.Units
import EfiLoader.Proofs.Loader.Sights
import EfiLoader.Proofs.Console
import EfiLoader.Proofs.Pool.Tenancy
import EfiLoader.Proofs.Loader.WalkedTable
import EfiLoader.Proofs.Uefi.FilesClosed
import EfiLoader.Proofs.Buffer.Loose
import EfiLoader.Proofs.Buffer.Filling
