import MelonSoc.Rtl.SocPkg
import MelonSoc.Rtl.Rvc
import MelonSoc.Rtl.Decode
import MelonSoc.Rtl.Divider
import MelonSoc.Rtl.PrivCsr
import MelonSoc.Rtl.Cpu.Regs
import MelonSoc.Rtl.Cpu.Execute
import MelonSoc.Rtl.Cpu.Signals
import MelonSoc.Rtl.Cpu.Step
import MelonSoc.Rtl.Mmu
import MelonSoc.Rtl.Hart
import MelonSoc.Rtl.Soc
import MelonSoc.Rtl.DdrBridge
import MelonSoc.Rtl.LcdDma
import MelonSoc.Rtl.LcdPanel
import MelonSoc.Rtl.Top
import MelonSoc.Lib.Clocked
import MelonSoc.Lib.BitFields
import MelonSoc.Lib.Programs
import MelonSoc.Lib.RestoringDivision
import MelonSoc.Lib.Sv32
import MelonSoc.Pipeline.Division
import MelonSoc.Pipeline.Flags
import MelonSoc.Pipeline.Stages
import MelonSoc.Pipeline.History
import MelonSoc.Pipeline.Linked
import MelonSoc.Pipeline.Operands
import MelonSoc.Pipeline.ProgramOrder
import MelonSoc.Pipeline.InOrder
import MelonSoc.Pipeline.FetchQueue
import MelonSoc.Pipeline.Frontend
import MelonSoc.Xlate.Context
import MelonSoc.Pipeline.Carried
import MelonSoc.Bus.Control
import MelonSoc.Bus.Requests
import MelonSoc.Bus.AtomicUnit
import MelonSoc.Bus.Origins
import MelonSoc.Bus.Grants
import MelonSoc.Bus.Delivery
import MelonSoc.Bus.Integrity
import MelonSoc.Bus.Ownership
import MelonSoc.Bus.Fetch
import MelonSoc.Bus.Mmio
import MelonSoc.Bus.Atomicity
import MelonSoc.Bus.AtomicMemory
import MelonSoc.Bus.FenceI
import MelonSoc.Bus.Decoders
import MelonSoc.Csr.Confinement
import MelonSoc.Xlate.Moves
import MelonSoc.Xlate.Sfence
import MelonSoc.Xlate.FetchFault
import MelonSoc.Xlate.Tables
import MelonSoc.Xlate.Walks
import MelonSoc.Xlate.Soundness
import MelonSoc.Xlate.Translation
import MelonSoc.Xlate.DataFault
import MelonSoc.Ddr.Handshake
import MelonSoc.Ddr.Lines
import MelonSoc.Ddr.Crossing
import MelonSoc.Ddr.ByteMemory
import MelonSoc.Ddr.Sharing
import MelonSoc.Boot.Image
import MelonSoc.Boot.Xmodem
import MelonSoc.Boot.FatBoot
import MelonSoc.Boot.Confinement
import MelonSoc.Boot.Stream
import MelonSoc.Boot.Receiver
import MelonSoc.Boot.Session
import MelonSoc.Boot.Integrity
import MelonSoc.Boot.Frames
import MelonSoc.Boot.Exchange
import MelonSoc.Boot.Stray
import MelonSoc.Boot.Recovery
import MelonSoc.Boot.Link
import MelonSoc.Boot.Agreement
import MelonSoc.Boot.Silence
import MelonSoc.Boot.Card
import MelonSoc.Boot.FatFile
import MelonSoc.Lib.Orbits
import MelonSoc.Lib.Numerals
import MelonSoc.Utils.Print
import MelonSoc.Utils.PrintExact
import MelonSoc.Boot.FatDirectory
import MelonSoc.Boot.FatLoad
import MelonSoc.Boot.FatVolume
import MelonSoc.Boot.SdImage
import MelonSoc.Boot.ImageLoad
import MelonSoc.Lib.Segments
import MelonSoc.Rtos.Heap4
import MelonSoc.Rtos.HeapChain
import MelonSoc.Rtos.HeapSpec
import MelonSoc.Rtos.HeapRelease
import MelonSoc.Rtos.HeapRuns
import MelonSoc.Lib.Rings
import MelonSoc.Lib.Wheel
import MelonSoc.Rtos.ListItems
import MelonSoc.Rtos.ListWheels
import MelonSoc.Rtos.ListRuns
import MelonSoc.Rtos.Tasks
import MelonSoc.Rtos.TaskLists
import MelonSoc.Rtos.Scheduler
import MelonSoc.Rtos.Ticks
import MelonSoc.Rtos.Switching
import MelonSoc.Rtos.Resuming
import MelonSoc.Rtos.Blocking
import MelonSoc.Rtos.Waiting
import MelonSoc.Rtos.Retiring
import MelonSoc.Rtos.Joining
import MelonSoc.Rtos.Deleting
import MelonSoc.Rtos.SchedulerRuns
import MelonSoc.Rtos.TimeSlices
import MelonSoc.Lib.Rv32
import MelonSoc.Lib.Rv32Run
import MelonSoc.Lib.Rv32Machine
import MelonSoc.Lib.Rv32c
import MelonSoc.Isa.Decoder
import MelonSoc.Isa.Lanes
import MelonSoc.Isa.Execution
import MelonSoc.Isa.Compressed
import MelonSoc.Isa.MulDiv
import MelonSoc.Isa.Effects
import MelonSoc.Isa.Settled
import MelonSoc.Isa.Refinement
import MelonSoc.Isa.Progress
import MelonSoc.Pipeline.Retire
import MelonSoc.Rtl.TimerMmio
import MelonSoc.Periph.Timer
import MelonSoc.Periph.TimerMatch
import MelonSoc.Periph.Delay
import MelonSoc.Csr.Interrupts
import MelonSoc.Csr.Traps
import MelonSoc.Csr.Representation
import MelonSoc.Rtl.Clint
import MelonSoc.Lib.Counters
import MelonSoc.Periph.ClintCompare
import MelonSoc.Periph.CounterReads
import MelonSoc.Rtl.Uart
import MelonSoc.Rtl.Spi
import MelonSoc.Rtl.I2c
import MelonSoc.Rtl.MmioBlock
import MelonSoc.Periph.SpiExchange
import MelonSoc.Periph.I2cBus
import MelonSoc.Periph.LineFill
import MelonSoc.Periph.PanelRows
import MelonSoc.Periph.PingPong
import MelonSoc.Periph.ScanOut
import MelonSoc.Periph.UartReads
import MelonSoc.Periph.UartLoop
import MelonSoc.Rtl.SdHost
import MelonSoc.Periph.SdCommand
import MelonSoc.Lib.Crc
import MelonSoc.Lib.Accesses
import MelonSoc.Periph.SdDriver
import MelonSoc.Periph.SdRead
import MelonSoc.Periph.SdBlock
import MelonSoc.Periph.SdSystem
